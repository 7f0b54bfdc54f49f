import MailMerge.Proofs.Text.Cut
import MailMerge.Proofs.Text.Digits
import MailMerge.Section.Span
import MailMerge.Text.Case
import MailMerge.Value.Json
import MailMerge.Value.Path

/-!
# Texts that begin no marker

A text is calm if it has no opening braces, even where another text follows it, with newlines at its
end left out or not. Texts put together from calm ones are calm. A text stays calm when its
characters are written in another way, in another case or escaped.

Texts that are joined can be taken apart at any of them. So what is done to a text at one of its
lines is done to the list of its lines.

**`Recased.calm`**: a calm text stays calm when its characters are written in another way.

**`unlines_append`**: lines that are put together in two parts meet at a newline.
-/

namespace MailMerge.Text

open Section (Span.placeholderStart)

variable {c : Char} {s t u : Text}

/-- The character begins neither a marker nor a placeholder. -/
def Plain (c : Char) : Prop :=
  c ≠ '{' ∧ c ≠ Span.placeholderStart

instance : DecidablePred Plain := fun c =>
  inferInstanceAs (Decidable (c ≠ '{' ∧ c ≠ Span.placeholderStart))

/-- No character begins a marker or a placeholder. -/
def AllPlain (t : Text) : Prop :=
  ∀ c ∈ t, Plain c

instance : DecidablePred AllPlain := fun t =>
  List.decidableBAll Plain t

/-- The text has no placeholder, and no opening braces, whatever follows it: each brace is followed by
another character, and not by newlines only. -/
def Calm : Text → Prop
  | [] => True
  | c :: t =>
    c ≠ Span.placeholderStart ∧ (c = '{' → t.head? ≠ some '{' ∧ ∃ d ∈ t, d ≠ '\n') ∧ Calm t

instance decidableCalm : DecidablePred Calm
  | [] => .isTrue trivial
  | _ :: t =>
    have := decidableCalm t
    have := List.decidableBEx (· ≠ '\n') t
    inferInstanceAs (Decidable (_ ∧ _ ∧ _))

/-- The text has no placeholder and no opening braces. A brace may end it. -/
def Unopened (t : Text) : Prop :=
  contains Marker.opening t = false ∧ Span.placeholderStart ∉ t

instance : DecidablePred Unopened := fun t =>
  inferInstanceAs (Decidable (contains Marker.opening t = false ∧ Span.placeholderStart ∉ t))

/-! ## Plain texts -/

theorem allPlain_append : AllPlain (s ++ t) ↔ AllPlain s ∧ AllPlain t := by
  simp only [AllPlain, List.forall_mem_append]

theorem allPlain_cons : AllPlain (c :: t) ↔ Plain c ∧ AllPlain t := by
  simp only [AllPlain, List.forall_mem_cons]

theorem AllPlain.append (hs : AllPlain s) (ht : AllPlain t) : AllPlain (s ++ t) :=
  allPlain_append.2 ⟨hs, ht⟩

theorem AllPlain.cons (hc : Plain c) (ht : AllPlain t) : AllPlain (c :: t) :=
  allPlain_cons.2 ⟨hc, ht⟩

theorem AllPlain.subset (h : AllPlain t) (hs : s ⊆ t) : AllPlain s :=
  fun c hc => h c (hs hc)

theorem allPlain_replicate (h : Plain c) (n : Nat) : AllPlain (List.replicate n c) := by
  intro d hd
  rw [List.eq_of_mem_replicate hd]
  exact h

theorem plain_of_isDecimalDigit (h : isDecimalDigit c) : Plain c := by
  constructor
  · rintro rfl
    revert h
    decide
  · rintro rfl
    revert h
    decide

theorem allPlain_ofNat (n : Nat) : AllPlain (ofNat n) :=
  fun _ hc => plain_of_isDecimalDigit (isDecimalDigit_of_mem_ofNat hc)

theorem allPlain_ofInt (n : Int) : AllPlain (ofInt n) := by
  intro c hc
  rcases mem_ofInt hc with rfl | hd
  · decide
  · exact plain_of_isDecimalDigit hd

theorem allPlain_padded (width n : Nat) : AllPlain (padded width n) :=
  fun _ hc => plain_of_isDecimalDigit (isDecimalDigit_of_mem_padded hc)

/-! ## Calm texts -/

theorem AllPlain.calm (h : AllPlain t) : Calm t := by
  induction t with
  | nil => trivial
  | cons c t ih =>
    rw [allPlain_cons] at h
    exact ⟨h.1.2, fun hc => absurd hc h.1.1, ih h.2⟩

theorem Calm.append (hs : Calm s) (ht : Calm t) : Calm (s ++ t) := by
  induction s with
  | nil => exact ht
  | cons c s ih =>
    refine ⟨hs.1, fun hc => ?_, ih hs.2.2⟩
    obtain ⟨hhead, d, hd, hne⟩ := hs.2.1 hc
    refine ⟨?_, d, List.mem_append_left t hd, hne⟩
    cases s with
    | nil => cases hd
    | cons e s => exact hhead

theorem calm_cons (hc : Plain c) (ht : Calm t) : Calm (c :: t) :=
  ⟨hc.2, fun h => absurd h hc.1, ht⟩

theorem calm_join {sep : Text} {ts : List Text} (hsep : Calm sep) (h : ∀ t ∈ ts, Calm t) :
    Calm (join sep ts) := by
  induction ts with
  | nil => trivial
  | cons t ts ih =>
    have ht := h t List.mem_cons_self
    have hts := ih fun u hu => h u (List.mem_cons_of_mem t hu)
    cases ts with
    | nil => exact ht
    | cons u us =>
      rw [join]
      · exact (ht.append hsep).append hts
      · simp

/-! ## Texts without opening braces -/

theorem Unopened.tail (h : Unopened (c :: t)) : Unopened t := by
  refine ⟨contains_eq_false_iff.2 ?_, fun hm => h.2 (List.mem_cons_of_mem c hm)⟩
  rintro a b rfl
  exact contains_eq_false_iff.1 h.1 (c :: a) b rfl

theorem Unopened.head?_ne (h : Unopened ('{' :: t)) : t.head? ≠ some '{' := by
  intro hd
  obtain ⟨u, rfl⟩ := List.head?_eq_some_iff.1 hd
  exact contains_eq_false_iff.1 h.1 [] u rfl

theorem AllPlain.unopened (h : AllPlain t) : Unopened t := by
  refine ⟨contains_eq_false_iff.2 ?_, fun hm => (h _ hm).2 rfl⟩
  rintro a b rfl
  exact (h '{' (by simp [Marker.opening])).1 rfl

/-- A text without opening braces is calm as soon as a plain text follows it. -/
theorem Unopened.calm_append (hs : Unopened s) (ht : AllPlain t) (hne : ∃ d ∈ t, d ≠ '\n') :
    Calm (s ++ t) := by
  induction s with
  | nil => exact ht.calm
  | cons c s ih =>
    refine ⟨fun hc => hs.2 (hc ▸ List.mem_cons_self), ?_, ih hs.tail⟩
    rintro rfl
    obtain ⟨d, hd, hn⟩ := hne
    refine ⟨?_, d, List.mem_append_right s hd, hn⟩
    cases s with
    | nil => exact fun hb => (ht '{' (List.mem_of_head? hb)).1 rfl
    | cons e s => exact hs.head?_ne

/-! ## Characters written in another way -/

/-- The character is written as it is, or as plain characters of the same line. -/
def WritesAs (c : Char) (u : Text) : Prop :=
  u = [c] ∨ u ≠ [] ∧ AllPlain u ∧ '\n' ∉ u

instance : DecidableRel WritesAs := fun c u =>
  inferInstanceAs (Decidable (u = [c] ∨ u ≠ [] ∧ AllPlain u ∧ '\n' ∉ u))

/-- The second text is the first one with characters written in another way. -/
inductive Recased : Text → Text → Prop
  | nil : Recased [] []
  | cons {c : Char} {u s t : Text} : WritesAs c u → Recased s t → Recased (c :: s) (u ++ t)

theorem recased_flatMap {f : Char → Text} (h : ∀ c, WritesAs c (f c)) (t : Text) :
    Recased t (t.flatMap f) := by
  induction t with
  | nil => exact .nil
  | cons c t ih => exact .cons (h c) ih

namespace Recased

theorem append {s' t' : Text} (h : Recased s t) (h' : Recased s' t') :
    Recased (s ++ s') (t ++ t') := by
  induction h with
  | nil => exact h'
  | cons hu _ ih =>
    rw [List.cons_append, List.append_assoc]
    exact .cons hu ih

theorem refl (t : Text) : Recased t t := by
  induction t with
  | nil => exact .nil
  | cons c t ih => exact .cons (.inl rfl) ih

theorem head? (h : Recased s t) (hs : s.head? ≠ some '{') : t.head? ≠ some '{' := by
  cases h with
  | nil => exact hs
  | cons hu _ =>
    rcases hu with rfl | ⟨hne, hu, -⟩
    · exact hs
    · obtain ⟨d, u, rfl⟩ := List.exists_cons_of_ne_nil hne
      intro hd
      exact (hu d List.mem_cons_self).1 (Option.some.inj hd)

theorem exists_ne (h : Recased s t) (hs : ∃ d ∈ s, d ≠ '\n') : ∃ d ∈ t, d ≠ '\n' := by
  induction h with
  | nil => exact hs
  | @cons c u s t hu _ ih =>
    rcases hu with rfl | ⟨hne, -, hu⟩
    · obtain ⟨d, hd, hdn⟩ := hs
      rcases List.mem_cons.1 hd with rfl | hd
      · exact ⟨d, List.mem_cons_self, hdn⟩
      · obtain ⟨e, he, hen⟩ := ih ⟨d, hd, hdn⟩
        exact ⟨e, List.mem_cons_of_mem c he, hen⟩
    · obtain ⟨d, u, rfl⟩ := List.exists_cons_of_ne_nil hne
      refine ⟨d, List.mem_cons_self, ?_⟩
      rintro rfl
      exact hu List.mem_cons_self

/-- **A calm text stays calm when its characters are written in another way.** -/
theorem calm (h : Recased s t) (hs : Calm s) : Calm t := by
  induction h with
  | nil => trivial
  | cons hu h ih =>
    obtain ⟨hc, hbrace, hs⟩ := hs
    rcases hu with rfl | ⟨-, hu, -⟩
    · exact ⟨hc, fun hc => ⟨h.head? (hbrace hc).1, h.exists_ne (hbrace hc).2⟩, ih hs⟩
    · exact hu.calm.append (ih hs)

end Recased

theorem join_splitOn (sep : Char) (t : Text) : join [sep] (splitOn sep t) = t := by
  induction t with
  | nil => rfl
  | cons c t ih =>
    rw [splitOn]
    cases hs : splitOn sep t with
    | nil => exact absurd hs (splitOn_ne_nil sep t)
    | cons piece pieces =>
      rw [hs] at ih
      split
      · next hc =>
        rw [join]
        · simp [hc, ih]
        · simp
      · dsimp only
        cases pieces with
        | nil => exact congrArg (c :: ·) ih
        | cons u us => exact congrArg (c :: ·) ih

/-- Pieces that are written in another way make up a text that is. -/
theorem recased_join (sep : Char) {f : Text → Text} {ts : List Text}
    (h : ∀ t ∈ ts, Recased t (f t)) : Recased (join [sep] ts) (join [sep] (ts.map f)) := by
  induction ts with
  | nil => exact .nil
  | cons t ts ih =>
    have ht := h t List.mem_cons_self
    have hts := ih fun u hu => h u (List.mem_cons_of_mem t hu)
    cases ts with
    | nil => exact ht
    | cons u us => exact (ht.append (Recased.refl [sep])).append hts

/-! ### Upper and lower case -/

/-- The run maps no character to a brace, a newline or the start of a placeholder. -/
def CaseRun.avoids (r : CaseRun) : Bool :=
  ['{', '\n', Span.placeholderStart].all fun c =>
    (c.toNat : Int) - r.shift < r.first || (r.last : Int) < c.toNat - r.shift

theorem CaseRun.ne_of_apply? {r : CaseRun} (hr : r.avoids) {n m : Nat} (h : r.apply? n = some m)
    (hc : c ∈ ['{', '\n', Span.placeholderStart]) : m ≠ c.toNat := by
  rintro rfl
  unfold CaseRun.apply? at h
  split at h
  · next hn =>
    have hm := Option.some.inj h
    have ha := List.all_eq_true.1 hr c hc
    simp only [Bool.or_eq_true, decide_eq_true_eq, Bool.and_eq_true] at ha hn
    have hpos : 0 < c.toNat := by
      revert hc
      simp only [List.mem_cons, List.not_mem_nil, or_false]
      rintro (rfl | rfl | rfl) <;> decide
    omega
  · cases h

/-- A character given by its number is another one, unless the number is that of the character. -/
theorem ofNat_ne {m : Nat} (hm : m ≠ c.toNat) (hc : c ≠ '\x00') : Char.ofNat m ≠ c := by
  intro h
  by_cases hv : m.isValidChar
  · refine hm ?_
    rw [← h, Char.ofNat, dif_pos hv]
    rfl
  · refine hc ?_
    rw [← h, Char.ofNat, dif_neg hv]
    rfl

theorem writesAs_mapCase {runs : List CaseRun} {expansions : List (Nat × List Nat)}
    (hr : ∀ r ∈ runs, r.avoids)
    (he : ∀ e ∈ expansions, e.2 ≠ [] ∧ ∀ m ∈ e.2, Plain (Char.ofNat m) ∧ Char.ofNat m ≠ '\n')
    (c : Char) : WritesAs c (mapCase runs expansions c) := by
  unfold mapCase
  split
  · next cs hl =>
    obtain ⟨before, after, rfl, -⟩ := List.lookup_eq_some_iff.1 hl
    obtain ⟨hne, hall⟩ := he (c.toNat, cs) (by simp)
    refine .inr ⟨by simpa using hne, fun d hd => ?_, fun hd => ?_⟩
    · obtain ⟨m, hm, rfl⟩ := List.mem_map.1 hd
      exact (hall m hm).1
    · obtain ⟨m, hm, hd⟩ := List.mem_map.1 hd
      exact (hall m hm).2 hd
  · cases hf : runs.findSome? fun r => r.apply? c.toNat with
    | none => exact .inl rfl
    | some m =>
      obtain ⟨r, hmem, hm⟩ := List.exists_of_findSome?_eq_some hf
      have hne : ∀ d ∈ ['{', '\n', Span.placeholderStart], Char.ofNat m ≠ d := by
        intro d hd
        refine ofNat_ne (CaseRun.ne_of_apply? (hr r hmem) hm hd) ?_
        revert hd
        simp only [List.mem_cons, List.not_mem_nil, or_false]
        rintro (rfl | rfl | rfl) <;> decide
      refine .inr ⟨by simp, fun d hd => ?_, fun hd => ?_⟩
      · obtain rfl := List.mem_singleton.1 hd
        exact ⟨hne '{' (by simp), hne _ (by simp)⟩
      · exact hne '\n' (by simp) (List.mem_singleton.1 hd).symm

/-- What holds of the characters below a number, checked one by one. -/
theorem forall_toNat_lt {P : Char → Prop} {n : Nat} (h : ∀ k < n, P (Char.ofNat k))
    (hc : c.toNat < n) : P c := by
  have := h c.toNat hc
  rwa [Char.ofNat_toNat] at this

theorem writesAs_upperChar (c : Char) : WritesAs c (upperChar c) := by
  unfold upperChar
  split
  · next hc => exact forall_toNat_lt (P := fun c => WritesAs c [c.toUpper]) (by decide +kernel) hc
  · exact writesAs_mapCase (by decide +kernel) (by decide +kernel) c

theorem writesAs_lowerChar (c : Char) : WritesAs c (lowerChar c) := by
  unfold lowerChar
  split
  · next hc => exact forall_toNat_lt (P := fun c => WritesAs c [c.toLower]) (by decide +kernel) hc
  · exact writesAs_mapCase (by decide +kernel) (by decide +kernel) c

theorem recased_upper (t : Text) : Recased t (upper t) :=
  recased_flatMap writesAs_upperChar t

theorem recased_lowerAfter (before t : Text) : Recased t (lowerAfter before t) := by
  induction t generalizing before with
  | nil => exact .nil
  | cons c t ih =>
    rw [lowerAfter]
    refine .cons ?_ (ih (c :: before))
    split
    · split
      · exact .inr ⟨by simp, by decide⟩
      · exact .inr ⟨by simp, by decide⟩
    · exact writesAs_lowerChar c

/-! ### JSON strings -/

theorem writesAs_escapeJson (c : Char) : WritesAs c (escapeJson c) := by
  by_cases hc : c.toNat < 0x20
  · exact forall_toNat_lt (P := fun c => WritesAs c (escapeJson c)) (by decide +kernel) hc
  · unfold escapeJson
    repeat' split
    all_goals first
      | exact .inl rfl
      | exact .inr (by decide)

/-- A JSON string is calm if the text is, as soon as a quote follows it. -/
theorem calm_jsonString (h : Calm (t ++ ['"'])) : Calm (jsonString t) := by
  have hr := (recased_flatMap writesAs_escapeJson t).append (Recased.refl ['"'])
  exact calm_cons (by decide) (hr.calm h)

end MailMerge.Text

namespace MailMerge.Text

theorem join_append {sep : Text} {as bs : List Text} (ha : as ≠ []) (hb : bs ≠ []) :
    join sep (as ++ bs) = join sep as ++ sep ++ join sep bs := by
  induction as with
  | nil => exact absurd rfl ha
  | cons a as ih =>
    cases as with
    | nil =>
      obtain ⟨b, bs, rfl⟩ := List.exists_cons_of_ne_nil hb
      rfl
    | cons a' as =>
      show a ++ sep ++ join sep (a' :: as ++ bs) = a ++ sep ++ join sep (a' :: as) ++ sep ++ join sep bs
      rw [ih (by simp)]
      simp only [List.append_assoc]

/-- One of the joined texts, and what is in front of it and behind it. -/
theorem join_append_cons (sep : Text) (as : List Text) (x : Text) (bs : List Text) :
    join sep (as ++ x :: bs) = as.flatMap (· ++ sep) ++ x ++ bs.flatMap (sep ++ ·) := by
  have hcons : ∀ (x : Text) (bs : List Text), join sep (x :: bs) = x ++ bs.flatMap (sep ++ ·) := by
    intro x bs
    induction bs generalizing x with
    | nil => simp [join]
    | cons b bs ih =>
      show x ++ sep ++ join sep (b :: bs) = _
      rw [ih, List.flatMap_cons]
      simp only [List.append_assoc]
  induction as with
  | nil => exact hcons x bs
  | cons a as ih =>
    rw [List.cons_append, show a :: (as ++ x :: bs) = [a] ++ (as ++ x :: bs) from rfl,
      join_append (by simp) (by simp), ih]
    simp [join]

theorem unlines_append {as bs : List Text} (ha : as ≠ []) (hb : bs ≠ []) :
    unlines (as ++ bs) = unlines as ++ '\n' :: unlines bs := by
  rw [unlines, join_append ha hb]
  simp [unlines]

@[simp] theorem unlines_lines (t : Text) : unlines (lines t) = t :=
  join_splitOn '\n' t

theorem lines_ne_nil (t : Text) : lines t ≠ [] :=
  splitOn_ne_nil '\n' t

theorem lines_append_newline (s t : Text) : lines (s ++ '\n' :: t) = lines s ++ lines t :=
  splitOn_append '\n' s t

theorem lines_of_notMem {t : Text} (h : '\n' ∉ t) : lines t = [t] :=
  splitOn_of_notMem h

/-! ## Cuts at newlines -/

variable {c : Char} {t before after : Text}

theorem cutLast?_eq_none_iff : cutLast? [c] t = none ↔ c ∉ t := by
  induction t with
  | nil => simp [cutLast?, dropStart?]
  | cons d t ih =>
    rw [cutLast?, List.mem_cons, not_or, ← ih]
    cases cutLast? [c] t with
    | some p => simp
    | none => by_cases h : c = d <;> simp [dropStart?, h]

/-- A character cannot stand behind its last occurrence. -/
theorem notMem_of_cutLast? (h : cutLast? [c] t = some (before, after)) : c ∉ after := by
  induction t generalizing before with
  | nil => simp [cutLast?, dropStart?] at h
  | cons d t ih =>
    rw [cutLast?] at h
    cases hc : cutLast? [c] t with
    | some p =>
      rw [hc] at h
      obtain ⟨-, rfl⟩ := Prod.mk.inj (Option.some.inj h)
      exact ih hc
    | none =>
      rw [hc] at h
      obtain ⟨after', hd, he⟩ := Option.map_eq_some_iff.1 h
      obtain ⟨-, rfl⟩ := Prod.mk.inj he
      have := eq_append_of_dropStart? hd
      rw [List.singleton_append, List.cons.injEq] at this
      exact this.2 ▸ cutLast?_eq_none_iff.1 hc

theorem lines_of_cutLast? (h : cutLast? ['\n'] t = some (before, after)) :
    lines t = lines before ++ [after] := by
  rw [eq_append_of_cutLast? h, List.append_assoc, List.singleton_append, lines_append_newline,
    lines_of_notMem (notMem_of_cutLast? h)]

theorem lines_of_cutFirst? (h : cutFirst? ['\n'] t = some (before, after)) :
    lines t = before :: lines after := by
  rw [eq_append_of_cutFirst? h, List.append_assoc, List.singleton_append, lines_append_newline,
    lines_of_notMem (notMem_of_cutFirst? h)]
  rfl

theorem cutFirst?_singleton_eq_none_iff : cutFirst? [c] t = none ↔ c ∉ t := by
  rw [cutFirst?_eq_none_iff]
  constructor
  · intro h hc
    obtain ⟨a, b, rfl⟩ := List.append_of_mem hc
    exact h a b (by simp)
  · rintro h a b rfl
    simp at h

end MailMerge.Text
