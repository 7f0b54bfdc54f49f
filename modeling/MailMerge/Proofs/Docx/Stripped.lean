import MailMerge.Proofs.Docx.Labels
import MailMerge.Proofs.Text.Cut

/-!
# Cutting declarations out of a fragment

Declarations are looked for in the whole text of a fragment, so what is cut out may also be a piece of a
text, or of a value and the attribute after it. A piece begins with a blank and has no angle bracket in it.
So no tag goes, and a tag that a piece is cut out of is still a tag.

**`cut_strip`**: the text without the declarations is the text without such pieces.

**`strip_declarations`**: of the declarations of the first tag exactly those in force are cut out.

**Laws of cutting.** An escaped text stays an escaped text (`Cut.escape`), and the settings of a tag stay
settings, of which some may be missing (`Cut.settings`).
-/

namespace MailMerge.Docx

open Xml

variable {s t u v : Text}

/-! ## Blanks -/

/-- A character of a text is written as it is, or without blanks. -/
theorem escapeChar_cases (c : Char) :
    escapeChar c = [c] ∨ '"' ∉ escapeChar c ∧ ∀ x ∈ escapeChar c, ¬ Text.isBlank x := by
  unfold escapeChar
  split_ifs
  · exact .inr (by decide)
  · exact .inr (by decide)
  · exact .inr (by decide)
  · exact .inl rfl

/-- A character of a value is written as it is, or without blanks. -/
theorem escapeValueChar_cases (c : Char) :
    escapeValueChar c = [c] ∧ c ≠ '"' ∨ '"' ∉ escapeValueChar c ∧ ∀ x ∈ escapeValueChar c, ¬ Text.isBlank x := by
  unfold escapeValueChar escapeChar
  split_ifs with h
  · exact .inr (by decide)
  · exact .inr (by decide)
  · exact .inr (by decide)
  · exact .inr (by decide)
  · exact .inr (by decide)
  · exact .inr (by decide)
  · exact .inr (by decide)
  · exact .inl ⟨rfl, h⟩

theorem quote_notMem_escapeValue (t : Text) : '"' ∉ escapeValue t := by
  intro h
  obtain ⟨c, -, hc⟩ := List.mem_flatMap.1 h
  rcases escapeValueChar_cases c with ⟨he, hne⟩ | ⟨hq, -⟩
  · rw [he, List.mem_singleton] at hc
    exact hne hc.symm
  · exact hq hc

/-! ## Pieces that are cut out -/

/-- Blanks and a declaration, with no angle bracket in it. -/
inductive Removable : Text → Prop
  | mk {blanks label space : Text} (hblanks : ∀ c ∈ blanks, Text.isBlank c) (hne : blanks ≠ [])
      (hlabel : ∀ c ∈ label, Text.isWordChar c) (hquote : '"' ∉ space) (hspace : '<' ∉ space ∧ '>' ∉ space) :
      Removable (blanks ++ "xmlns:".toList ++ label ++ ['=', '"'] ++ space ++ ['"'])

/-- The second text is the first one without some removable pieces. -/
inductive Cut : Text → Text → Prop
  | nil : Cut [] []
  | keep (c : Char) {t u : Text} : Cut t u → Cut (c :: t) (c :: u)
  | drop {s t u : Text} : Removable s → Cut t u → Cut (s ++ t) u

namespace Removable

theorem exists_cons (h : Removable s) : ∃ c t, s = c :: t ∧ Text.isBlank c := by
  obtain ⟨hblanks, hne, -, -, -⟩ := h
  rename_i blanks label space
  obtain ⟨c, t, rfl⟩ := List.exists_cons_of_ne_nil hne
  exact ⟨c, _, rfl, hblanks c List.mem_cons_self⟩

theorem not_isWordChar_of_mem {c : Char} (h : c ∈ "<>\"".toList) : ¬ Text.isWordChar c := by
  revert c
  decide +kernel

theorem angle_notMem (h : Removable s) : '<' ∉ s ∧ '>' ∉ s := by
  obtain ⟨hblanks, -, hlabel, -, hspace⟩ := h
  have hb : ∀ c ∈ "<>\"".toList, ¬ Text.isBlank c := by decide
  constructor
  · intro hc
    simp only [List.mem_append, or_assoc] at hc
    rcases hc with hc | hc | hc | hc | hc | hc
    · exact hb '<' (by decide) (hblanks _ hc)
    · exact absurd hc (by decide)
    · exact not_isWordChar_of_mem (by decide) (hlabel _ hc)
    · exact absurd hc (by decide)
    · exact hspace.1 hc
    · exact absurd hc (by decide)
  · intro hc
    simp only [List.mem_append, or_assoc] at hc
    rcases hc with hc | hc | hc | hc | hc | hc
    · exact hb '>' (by decide) (hblanks _ hc)
    · exact absurd hc (by decide)
    · exact not_isWordChar_of_mem (by decide) (hlabel _ hc)
    · exact absurd hc (by decide)
    · exact hspace.2 hc
    · exact absurd hc (by decide)

/-- The piece has two quotes, and the second is its last character. -/
theorem exists_quotes (h : Removable s) :
    ∃ p q, s = p ++ '"' :: q ++ ['"'] ∧ '"' ∉ p ∧ '"' ∉ q ∧ '>' ∉ q := by
  obtain ⟨hblanks, -, hlabel, hquote, hspace⟩ := h
  rename_i blanks label space
  refine ⟨blanks ++ "xmlns:".toList ++ label ++ ['='], space, by simp, ?_, hquote, hspace.2⟩
  intro hc
  simp only [List.mem_append, or_assoc] at hc
  rcases hc with hc | hc | hc | hc
  · exact absurd (hblanks _ hc) (by decide)
  · exact absurd hc (by decide)
  · exact not_isWordChar_of_mem (by decide) (hlabel _ hc)
  · exact absurd hc (by decide)

/-- The first character of the piece that is not blank begins a declaration. -/
theorem dropWhile_eq (h : Removable s) (t : Text) :
    ∃ u, (s ++ t).dropWhile Text.isBlank = "xmlns:".toList ++ u := by
  obtain ⟨hblanks, -, -, -, -⟩ := h
  rename_i blanks label space
  refine ⟨label ++ ['=', '"'] ++ space ++ ['"'] ++ t, ?_⟩
  rw [List.append_assoc, List.append_assoc, List.append_assoc, List.append_assoc, List.append_assoc,
    List.dropWhile_append_of_pos hblanks]
  have hx : ¬ Text.isBlank 'x' := by decide
  rw [show "xmlns:".toList = 'x' :: "mlns:".toList from rfl, List.cons_append, List.dropWhile_cons_of_neg hx]
  simp only [List.append_assoc, List.cons_append]

end Removable

namespace Cut

theorem append_left (s : Text) (h : Cut t u) : Cut (s ++ t) (s ++ u) := by
  induction s with
  | nil => exact h
  | cons c s ih => exact .keep c ih

/-- A piece that is cut out begins at a blank. -/
theorem cases_cons {c : Char} (h : Cut (c :: t) u) :
    (∃ u', u = c :: u' ∧ Cut t u') ∨
      Text.isBlank c ∧ ∃ s t', Removable s ∧ c :: t = s ++ t' ∧ Cut t' u := by
  generalize hx : c :: t = x at h
  cases h with
  | nil => cases hx
  | keep d h =>
    obtain ⟨rfl, rfl⟩ := List.cons.inj hx
    exact .inl ⟨_, rfl, h⟩
  | drop hs h =>
    refine .inr ⟨?_, _, _, hs, rfl, h⟩
    obtain ⟨d, s', rfl, hd⟩ := hs.exists_cons
    rw [(List.cons.inj hx).1]
    exact hd

theorem eq_nil (h : Cut [] u) : u = [] := by
  generalize hx : ([] : Text) = x at h
  cases h with
  | nil => rfl
  | keep c h => cases hx
  | drop hs h =>
    obtain ⟨c, s', rfl, -⟩ := hs.exists_cons
    cases hx

/-- What has no blank is kept. -/
theorem of_not_isBlank (hs : ∀ c ∈ s, ¬ Text.isBlank c) (h : Cut (s ++ t) u) :
    ∃ u', u = s ++ u' ∧ Cut t u' := by
  induction s generalizing u with
  | nil => exact ⟨u, rfl, h⟩
  | cons c s ih =>
    rw [List.forall_mem_cons] at hs
    rcases cases_cons h with ⟨u', rfl, hrest⟩ | ⟨hc, -⟩
    · obtain ⟨u'', rfl, hu⟩ := ih hs.2 hrest
      exact ⟨u'', rfl, hu⟩
    · exact absurd hc hs.1

/-! ## Texts -/

/-- A text that is cut after a quote is the escaped rest of the text. -/
theorem exists_of_escape_eq {p : Text} (h : escape t = p ++ '"' :: u) :
    ∃ t', u = escape t' ∧ t' ⊆ t ∧ t'.length < t.length := by
  induction t generalizing p with
  | nil =>
    rw [Xml.escape, List.flatMap_nil] at h
    simp at h
  | cons c t ih =>
    rw [escape_cons] at h
    rcases List.append_eq_append_iff.1 h with ⟨p', rfl, hrest⟩ | ⟨x, hx, hrest⟩
    · obtain ⟨t', rfl, hsub, hlen⟩ := ih hrest
      exact ⟨t', rfl, fun y hy => List.mem_cons_of_mem c (hsub hy), Nat.lt_succ_of_lt hlen⟩
    · cases x with
      | nil =>
        obtain ⟨t', rfl, hsub, hlen⟩ := @ih [] hrest.symm
        exact ⟨t', rfl, fun y hy => List.mem_cons_of_mem c (hsub hy), Nat.lt_succ_of_lt hlen⟩
      | cons y x =>
        obtain ⟨rfl, rfl⟩ := List.cons.inj hrest
        rcases escapeChar_cases c with hc | ⟨hquote, -⟩
        · rw [hc] at hx
          have hlen := congrArg List.length hx
          simp only [List.length_append, List.length_cons, List.length_nil] at hlen
          obtain rfl : x = [] := List.length_eq_zero_iff.1 (by omega)
          exact ⟨t, rfl, fun y hy => List.mem_cons_of_mem c hy, Nat.lt_succ_self _⟩
        · rw [hx] at hquote
          simp at hquote

/-- **An escaped text before a tag stays an escaped text.** -/
theorem escape (hu : Tagged u) (h : Cut (escape t ++ u) v) :
    ∃ t' u', v = Xml.escape t' ++ u' ∧ t' ⊆ t ∧ Cut u u' := by
  induction hn : t.length using Nat.strongRecOn generalizing t v with
  | ind n ih =>
    cases t with
    | nil => exact ⟨[], v, rfl, List.Subset.refl _, h⟩
    | cons c t =>
      have hlt : t.length < n := by
        rw [← hn]
        exact Nat.lt_succ_self _
      rw [escape_cons, List.append_assoc] at h
      have hkeep : ∀ {v'}, Cut (Xml.escape t ++ u) v' →
          ∃ t' u', escapeChar c ++ v' = Xml.escape t' ++ u' ∧ t' ⊆ c :: t ∧ Cut u u' := by
        intro v' h
        obtain ⟨t', u', rfl, hsub, hcut⟩ := ih _ hlt h rfl
        refine ⟨c :: t', u', by rw [escape_cons, List.append_assoc], ?_, hcut⟩
        exact List.cons_subset_cons c hsub
      rcases escapeChar_cases c with hc | ⟨-, hblank⟩
      · rw [hc] at h hkeep
        rcases cases_cons h with ⟨v', rfl, hrest⟩ | ⟨-, s, w, hs, heq, hrest⟩
        · exact hkeep hrest
        · -- The piece ends before the tag, since it has no angle bracket.
          have hsplit : ∃ x, c :: Xml.escape t = s ++ x ∧ w = x ++ u := by
            have heq : (c :: Xml.escape t) ++ u = s ++ w := heq
            rcases List.append_eq_append_iff.1 heq with ⟨y, rfl, hy⟩ | ⟨x, hx, hw⟩
            · cases y with
              | nil => exact ⟨[], (List.append_nil _).symm ▸ (List.append_nil _).symm, hy.symm⟩
              | cons d y =>
                rcases hu with rfl | hu
                · cases hy
                · rw [hy] at hu
                  obtain rfl := Option.some.inj hu
                  exact absurd (List.mem_append_right _ List.mem_cons_self) hs.angle_notMem.1
            · exact ⟨x, hx, hw⟩
          obtain ⟨x, hx, rfl⟩ := hsplit
          obtain ⟨p, q, rfl, -⟩ := hs.exists_quotes
          have hescape : Xml.escape (c :: t) = (p ++ '"' :: q) ++ '"' :: x := by
            rw [escape_cons, hc, List.singleton_append, hx, List.append_assoc, List.singleton_append]
          obtain ⟨t', rfl, hsub, hlen⟩ := exists_of_escape_eq hescape
          obtain ⟨t'', u', rfl, hsub', hcut⟩ := ih _ (hn ▸ hlen) hrest rfl
          exact ⟨t'', u', rfl, fun y hy => hsub (hsub' hy), hcut⟩
      · obtain ⟨v', rfl, hrest⟩ := of_not_isBlank hblank h
        exact hkeep hrest

/-! ## Settings -/

/-- A value is cut inside, or from a blank in it to a quote that follows the value. -/
theorem value {r : Text} (h : Cut (escapeValue v ++ '"' :: t) r) (hv : ∀ c ∈ v, isLegal c) :
    (∃ v' r', r = escapeValue v' ++ '"' :: r' ∧ (∀ c ∈ v', isLegal c) ∧ Cut t r') ∨
      ∃ v' q w r', t = q ++ '"' :: w ∧ '"' ∉ q ∧ '>' ∉ q ∧ r = escapeValue v' ++ r' ∧
        (∀ c ∈ v', isLegal c) ∧ Cut w r' := by
  induction v generalizing r with
  | nil =>
    obtain ⟨r', rfl, hcut⟩ := @of_not_isBlank ['"'] t r (by decide) h
    exact .inl ⟨[], r', rfl, by simp, hcut⟩
  | cons c v ih =>
    rw [List.forall_mem_cons] at hv
    have hcons : ∀ x, escapeValue (c :: x) = escapeValueChar c ++ escapeValue x := fun _ => rfl
    rw [hcons, List.append_assoc] at h
    have hkeep : ∀ {r}, Cut (escapeValue v ++ '"' :: t) r →
        (∃ v' r', escapeValueChar c ++ r = escapeValue v' ++ '"' :: r' ∧ (∀ c ∈ v', isLegal c) ∧ Cut t r') ∨
          ∃ v' q w r', t = q ++ '"' :: w ∧ '"' ∉ q ∧ '>' ∉ q ∧ escapeValueChar c ++ r = escapeValue v' ++ r' ∧
            (∀ c ∈ v', isLegal c) ∧ Cut w r' := by
      intro r hr
      rcases ih hr hv.2 with ⟨v', r', rfl, hv', hcut⟩ | ⟨v', q, w, r', ht, hq, hangle, rfl, hv', hcut⟩
      · exact .inl ⟨c :: v', r', by rw [hcons, List.append_assoc], List.forall_mem_cons.2 ⟨hv.1, hv'⟩, hcut⟩
      · exact .inr ⟨c :: v', q, w, r', ht, hq, hangle, by rw [hcons, List.append_assoc],
          List.forall_mem_cons.2 ⟨hv.1, hv'⟩, hcut⟩
    rcases escapeValueChar_cases c with ⟨hc, hne⟩ | ⟨-, hblank⟩
    · rw [hc] at h hkeep
      rcases cases_cons h with ⟨r', rfl, hrest⟩ | ⟨-, s, w, hs, heq, hrest⟩
      · exact hkeep hrest
      · -- The first quote of the piece is the one that closes the value.
        obtain ⟨p, q, rfl, hp, hq, hangle⟩ := hs.exists_quotes
        have hfree : '"' ∉ c :: escapeValue v := by
          rw [List.mem_cons, not_or]
          exact ⟨hne.symm, quote_notMem_escapeValue v⟩
        have hsplit : c :: escapeValue v = p ∧ t = q ++ '"' :: w :=
          (Text.freeOf_singleton hfree).unique (Text.freeOf_singleton hp) (by simpa using heq)
        exact .inr ⟨[], q, w, r, hsplit.2, hq, hangle, rfl, by simp, hrest⟩
    · obtain ⟨r', rfl, hrest⟩ := of_not_isBlank hblank h
      exact hkeep hrest

end Cut

/-- The attribute can be written and declares nothing. -/
structure IsSetting (a : Text × Text) : Prop where
  writable : IsWritable a
  plain : ∀ b, a.1 ≠ "xmlns:".toList ++ b

/-- In the text an angle bracket comes before any quote. -/
def ClosesTag (u : Text) : Prop :=
  ∀ q w, u = q ++ '"' :: w → '>' ∈ q

/-- Settings of which some may be missing, and with other values. -/
structure Fewer (as as' : List (Text × Text)) : Prop where
  names : (as'.map (·.1)).Sublist (as.map (·.1))
  legal : ∀ a ∈ as', ∀ c ∈ a.2, isLegal c

theorem settings_cons (a : Text × Text) (as : List (Text × Text)) :
    settings (a :: as) = ' ' :: (a.1 ++ ['=', '"'] ++ (escapeValue a.2 ++ '"' :: settings as)) := by
  simp [settings, writeSetting]

namespace Cut

variable {a : Text × Text} {as : List (Text × Text)} {r : Text}

/-- Up to its value nothing is cut out of a setting. -/
theorem setting (ha : IsSetting a) (h : Cut (settings (a :: as) ++ u) r) :
    ∃ r', r = ' ' :: (a.1 ++ ['=', '"'] ++ r') ∧ Cut (escapeValue a.2 ++ '"' :: (settings as ++ u)) r' := by
  have hname := not_isBlank_of_isQualifiedName ha.writable.1
  rw [settings_cons, List.cons_append] at h
  rcases cases_cons h with ⟨r', rfl, hrest⟩ | ⟨-, s, w, hs, heq, -⟩
  · rw [List.append_assoc] at hrest
    have hblank : ∀ c ∈ a.1 ++ ['=', '"'], ¬ Text.isBlank c := by
      intro c hc
      rcases List.mem_append.1 hc with hc | hc
      · exact hname c hc
      · have hsign : ∀ c ∈ ['=', '"'], ¬ Text.isBlank c := by decide
        exact hsign c hc
    obtain ⟨r'', rfl, hcut⟩ := of_not_isBlank hblank hrest
    exact ⟨r'', rfl, by simpa using hcut⟩
  · exfalso
    obtain ⟨x, hx⟩ := hs.dropWhile_eq w
    obtain ⟨c, n, hcons, -⟩ := exists_cons_of_isQualifiedName ha.writable.1
    rw [← heq, List.dropWhile_cons_of_pos (by decide), hcons, List.cons_append, List.cons_append,
      List.cons_append, List.dropWhile_cons_of_neg (hname c (by rw [hcons]; exact List.mem_cons_self)),
      ← List.cons_append, ← List.cons_append, ← List.cons_append, ← hcons, List.append_assoc,
      List.append_assoc] at hx
    rcases List.append_eq_append_iff.1 hx with ⟨y, hy, hrest⟩ | ⟨y, hy, -⟩
    · cases y with
      | nil => exact ha.plain [] (by rw [hy.trans (List.append_nil _), List.append_nil])
      | cons d y =>
        have hd : d = '=' := (List.cons.inj hrest).1.symm
        have hmem : d ∈ "xmlns:".toList := by
          rw [hy]
          exact List.mem_append_right _ List.mem_cons_self
        rw [hd] at hmem
        exact absurd hmem (by decide)
    · exact ha.plain y hy

/-- The value of a setting, and the settings after it. -/
theorem value_settings (hu : ClosesTag u) (has : ∀ a ∈ as, IsSetting a) (hv : ∀ c ∈ v, isLegal c)
    (h : Cut (escapeValue v ++ '"' :: (settings as ++ u)) r) :
    ∃ v' as' u', r = escapeValue v' ++ '"' :: (settings as' ++ u') ∧ (∀ c ∈ v', isLegal c) ∧
      Fewer as as' ∧ Cut u u' := by
  induction as generalizing v r with
  | nil =>
    rcases h.value hv with ⟨v', r', rfl, hv', hcut⟩ | ⟨v', q, w, r', ht, -, hangle, -⟩
    · exact ⟨v', [], r', rfl, hv', ⟨by simp, by simp⟩, hcut⟩
    · exact absurd (hu q w ht) hangle
  | cons a as ih =>
    rw [List.forall_mem_cons] at has
    rcases h.value hv with ⟨v', r', rfl, hv', hcut⟩ | ⟨v', q, w, r', ht, hq, -, rfl, hv', hcut⟩
    · obtain ⟨r'', rfl, hvalue⟩ := hcut.setting has.1
      obtain ⟨w, as', u', rfl, hw, hfewer, hcut⟩ := ih has.2 has.1.writable.2 hvalue
      refine ⟨v', (a.1, w) :: as', u', ?_, hv', ⟨?_, ?_⟩, hcut⟩
      · rw [settings_cons]
        simp
      · exact hfewer.names.cons_cons a.1
      · exact List.forall_mem_cons.2 ⟨hw, hfewer.legal⟩
    · -- The name of the next setting is cut out, so its value goes on with this one.
      have hfree : '"' ∉ ' ' :: (a.1 ++ ['=']) := by
        have hname : '"' ∉ a.1 := fun hc =>
          absurd (isQualifiedChar_of_isQualifiedName has.1.writable.1 hc) (by decide)
        simp [hname]
      have hsplit : ' ' :: (a.1 ++ ['=']) = q ∧ escapeValue a.2 ++ '"' :: (Xml.settings as ++ u) = w := by
        rw [settings_cons] at ht
        exact (Text.freeOf_singleton hfree).unique (Text.freeOf_singleton hq) (by simpa using ht)
      obtain ⟨-, rfl⟩ := hsplit
      obtain ⟨w, as', u', rfl, hw, hfewer, hcut⟩ := ih has.2 has.1.writable.2 hcut
      refine ⟨v' ++ w, as', u', ?_, ?_, ⟨hfewer.names.cons a.1, hfewer.legal⟩, hcut⟩
      · rw [escapeValue, escapeValue, escapeValue, List.flatMap_append, List.append_assoc]
      · intro c hc
        exact (List.mem_append.1 hc).elim (hv' c) (hw c)

/-- **Settings before the end of a tag stay settings**, of which some may be missing. -/
theorem settings (hu : ClosesTag u) (has : ∀ a ∈ as, IsSetting a) (h : Cut (Xml.settings as ++ u) r) :
    ∃ as' u', r = Xml.settings as' ++ u' ∧ Fewer as as' ∧ Cut u u' := by
  cases as with
  | nil => exact ⟨[], r, rfl, ⟨by simp, by simp⟩, h⟩
  | cons a as =>
    rw [List.forall_mem_cons] at has
    obtain ⟨r', rfl, hcut⟩ := h.setting has.1
    obtain ⟨w, as', u', rfl, hw, hfewer, hcut⟩ := hcut.value_settings hu has.2 has.1.writable.2
    refine ⟨(a.1, w) :: as', u', ?_, ⟨?_, ?_⟩, hcut⟩
    · rw [settings_cons]
      simp
    · exact hfewer.names.cons_cons a.1
    · exact List.forall_mem_cons.2 ⟨hw, hfewer.legal⟩

end Cut

theorem closesTag_cons (t : Text) : ClosesTag ('>' :: t) := by
  intro q w h
  cases q with
  | nil => exact absurd (List.cons.inj h).1 (by decide)
  | cons c q =>
    rw [← (List.cons.inj h).1]
    exact List.mem_cons_self

theorem ClosesTag.cons {c : Char} (hc : c ≠ '"') (h : ClosesTag t) : ClosesTag (c :: t) := by
  intro q w heq
  cases q with
  | nil => exact absurd (List.cons.inj heq).1 hc
  | cons d q => exact List.mem_cons_of_mem d (h q w (List.cons.inj heq).2)

/-! ## What is cut out of a fragment -/

theorem exists_of_space? {ds : Declarations} {label space : Text} (h : ds.space? label = some space) :
    ∃ e ∈ ds, e.label = label ∧ e.space = space := by
  obtain ⟨e, he, rfl⟩ := Option.map_eq_some_iff.1 h
  exact ⟨e, List.mem_of_find?_eq_some he, by simpa using List.find?_some he, rfl⟩

/-- What is read, by the lengths of what is left before and after it. -/
theorem take_length_sub {c : Char} {rest p after : Text} (h : c :: rest = p ++ after) :
    (c :: rest).take (rest.length + 1 - after.length) = p := by
  have hlen : rest.length + 1 - after.length = p.length := by
    have := congrArg List.length h
    rw [List.length_append, List.length_cons] at this
    omega
  rw [hlen, h, List.take_left]

/-- **Only removable pieces are cut out**, if no declared namespace has an angle bracket in it. -/
theorem cut_strip {ds : Declarations} (hds : ∀ e ∈ ds, '<' ∉ e.space ∧ '>' ∉ e.space) (t : Text) :
    Cut t (ds.strip t) := by
  have hsplit : ∀ {c rest after e}, Text.isBlank c →
      Declaration.read? (rest.dropWhile Text.isBlank) = some (e, after) →
      c :: rest = (c :: rest.takeWhile Text.isBlank) ++ "xmlns:".toList ++ e.label ++ ['=', '"'] ++ e.space
        ++ ['"'] ++ after ∧ ∀ x ∈ c :: rest.takeWhile Text.isBlank, Text.isBlank x := by
    intro c rest after e hc h
    obtain ⟨heq, -⟩ := Declaration.eq_append_of_read? h
    refine ⟨?_, List.forall_mem_cons.2 ⟨hc, List.all_eq_true.1 List.all_takeWhile⟩⟩
    conv_lhs => rw [← @List.takeWhile_append_dropWhile _ Text.isBlank rest, heq]
    simp
  fun_induction Declarations.strip ds t with
  | case1 => exact .nil
  | case2 c rest hblank e after hread hforce ih =>
    obtain ⟨heq, hblanks⟩ := hsplit hblank hread
    obtain ⟨-, hword, -, hquote⟩ := Declaration.eq_append_of_read? hread
    obtain ⟨d, hd, -, hspace⟩ := exists_of_space? hforce
    rw [heq]
    exact .drop (.mk hblanks (by simp) hword hquote (hspace ▸ hds d hd)) ih
  | case3 c rest hblank e after hread hforce ih =>
    obtain ⟨heq, -⟩ := hsplit hblank hread
    rw [take_length_sub heq, heq]
    exact ih.append_left _
  | case4 c rest hblank hread ih => exact .keep c ih
  | case5 c rest hblank ih => exact .keep c ih

theorem strip_append_of_not_isBlank (ds : Declarations) (hs : ∀ c ∈ s, ¬ Text.isBlank c) :
    ds.strip (s ++ t) = s ++ ds.strip t := by
  induction s with
  | nil => rfl
  | cons c s ih =>
    rw [List.forall_mem_cons] at hs
    rw [List.cons_append, Declarations.strip, if_neg hs.1, ih hs.2, List.cons_append]

theorem strip_of_read? (ds : Declarations) {c : Char} {rest after : Text} {e : Declaration}
    (hc : Text.isBlank c) (h : Declaration.read? (rest.dropWhile Text.isBlank) = some (e, after)) :
    ds.strip (c :: rest) =
      if ds.space? e.label = some e.space then ds.strip after
      else (c :: rest).take (rest.length + 1 - after.length) ++ ds.strip after := by
  rw [Declarations.strip, if_pos hc]
  split
  · next h' =>
    rw [h] at h'
    obtain ⟨rfl, rfl⟩ := Prod.mk.inj (Option.some.inj h')
    rfl
  · next h' =>
    rw [h] at h'
    cases h'

/-- A declaration is read as it is written, with the namespace as it is escaped. -/
theorem read?_append {label : Text} (hlabel : IsLabel label) (space t : Text) :
    Declaration.read? ("xmlns:".toList ++ (label ++ ['=', '"'] ++ (escapeValue space ++ '"' :: t))) =
      some ({ label, space := escapeValue space }, t) := by
  have hword : ¬ Text.isWordChar '=' := by decide +kernel
  have hne : label ≠ [] := by
    rintro rfl
    cases hlabel.name
  have htake : (label ++ ['=', '"'] ++ (escapeValue space ++ '"' :: t)).takeWhile Text.isWordChar = label := by
    rw [List.append_assoc, List.takeWhile_append_of_pos hlabel.word, List.cons_append,
      List.takeWhile_cons_of_neg hword, List.append_nil]
  have hcut : Text.cutFirst? ['"'] (escapeValue space ++ '"' :: t) = some (escapeValue space, t) := by
    have := (Text.freeOf_singleton (quote_notMem_escapeValue space)).cutFirst? t
    simpa using this
  have hstart := Text.dropStart?_append "xmlns:".toList (label ++ ['=', '"'] ++ (escapeValue space ++ '"' :: t))
  rw [Declaration.read?]
  simp only [Option.bind_eq_bind, show ['x', 'm', 'l', 'n', 's', ':'] = "xmlns:".toList from rfl, hstart,
    Option.bind_some, htake, if_neg hne]
  rw [List.append_assoc, List.drop_left]
  simp [Text.dropStart?, hcut]

/-- The declarations of labels, as the settings of a tag. -/
def declared (labels : Labels) : List (Text × Text) :=
  labels.map fun e => ("xmlns:".toList ++ e.2, e.1)

/-- The labels whose declarations are not in force. -/
def unknown (ds : Declarations) (labels : Labels) : Labels :=
  labels.filter fun e => ds.space? e.2 ≠ some (escapeValue e.1)

/-- **Of declarations in a tag those in force are cut out.** -/
theorem strip_declared (ds : Declarations) {labels : Labels} (h : ∀ e ∈ labels, IsLabel e.2) (t : Text) :
    ds.strip (settings (declared labels) ++ t) = settings (declared (unknown ds labels)) ++ ds.strip t := by
  induction labels with
  | nil => rfl
  | cons e labels ih =>
    rw [List.forall_mem_cons] at h
    have hcons : ∀ (labels : Labels) (u : Text), settings (declared (e :: labels)) ++ u =
        ' ' :: ("xmlns:".toList ++ (e.2 ++ ['=', '"'] ++ (escapeValue e.1 ++ '"' ::
          (settings (declared labels) ++ u)))) := by
      intro labels u
      rw [declared, List.map_cons, ← declared, settings_cons]
      simp only [List.append_assoc, List.cons_append, List.nil_append]
    have hdrop : ∀ x : Text, ("xmlns:".toList ++ x).dropWhile Text.isBlank = "xmlns:".toList ++ x :=
      fun x => List.dropWhile_cons_of_neg (by decide)
    have hread := read?_append h.1 e.1 (settings (declared labels) ++ t)
    rw [← hdrop] at hread
    rw [hcons, strip_of_read? ds (by decide) hread]
    by_cases hforce : ds.space? e.2 = some (escapeValue e.1)
    · rw [if_pos hforce, ih h.2, unknown, unknown, List.filter_cons_of_neg (by simpa using hforce)]
    · rw [if_neg hforce, ih h.2, unknown, unknown, List.filter_cons_of_pos (by simpa using hforce), hcons,
        take_length_sub (p := ' ' :: ("xmlns:".toList ++ (e.2 ++ ['=', '"'] ++ (escapeValue e.1 ++ ['"']))))]
      · simp only [List.append_assoc, List.cons_append, List.nil_append]
      · simp only [List.append_assoc, List.cons_append, List.nil_append]

end MailMerge.Docx
