import MailMerge.Proofs.Text.Cut
import MailMerge.Xml.Reading
import Mathlib.Data.List.TakeWhile

/-!
# Reading a text with more text after it

A tag, a comment, an instruction or a reference says itself where it ends. So it is read the same way
whatever stands after it, and what follows it is what followed it before, with the further text at its
end. Of plain characters this holds only if they go on with a tag: two square brackets must not be
followed by an angle bracket.

A reference or an attribute is even read by itself alone: all that follows it may be exchanged.

**`reads_attributes?`**: attributes may be followed by other spaces and by another end of their tag.

**`next?_append`**: tokens are read from the start of a text, whatever tag stands after it.

**`lex_append`**: the tokens of a text in which elements are left open come before those of the text after
it.
-/

namespace MailMerge.Xml

variable {t after : Text}

/-! ## Names and references -/

theorem takeWhile_append_of_dropWhile (p : Char → Bool) (h : t.dropWhile p ≠ []) (u : Text) :
    (t ++ u).takeWhile p = t.takeWhile p ∧ (t ++ u).dropWhile p = t.dropWhile p ++ u := by
  induction t with
  | nil => exact absurd rfl h
  | cons c t ih =>
    by_cases hc : p c = true
    · rw [List.dropWhile_cons_of_pos hc] at h
      simp only [List.cons_append, List.takeWhile_cons_of_pos hc, List.dropWhile_cons_of_pos hc, ih h,
        and_self]
    · simp [List.takeWhile_cons_of_neg hc, List.dropWhile_cons_of_neg hc]

/-- What follows the first such characters may be exchanged after its own first character. -/
theorem takeWhile_append_of_head? (p : Char → Bool) {u : Text} (h : u.head? = (t.dropWhile p).head?) :
    (t.takeWhile p ++ u).takeWhile p = t.takeWhile p ∧ (t.takeWhile p ++ u).dropWhile p = u := by
  have hstop : u.takeWhile p = [] ∧ u.dropWhile p = u := by
    cases u with
    | nil => exact ⟨rfl, rfl⟩
    | cons c u =>
      have hc : ¬ p c := by
        have := List.head?_dropWhile_not p t
        rw [← h] at this
        simpa using this
      exact ⟨List.takeWhile_cons_of_neg hc, List.dropWhile_cons_of_neg hc⟩
  have hall : ∀ c ∈ t.takeWhile p, p c := fun c hc => List.mem_takeWhile_imp hc
  rw [List.takeWhile_append_of_pos hall, List.dropWhile_append_of_pos hall, hstop.1, hstop.2, List.append_nil]
  exact ⟨rfl, rfl⟩

theorem reads_skipSpace {c : Char} {rest : Text} (h : skipSpace t = c :: rest) :
    ∃ s, t = s ++ c :: rest ∧ ∀ u, skipSpace (s ++ c :: u) = c :: u := by
  refine ⟨t.takeWhile isSpace, ?_, fun u => ?_⟩
  · rw [← h]
    exact List.takeWhile_append_dropWhile.symm
  · refine (takeWhile_append_of_head? isSpace ?_).2
    rw [← skipSpace, h]
    rfl

theorem skipSpace_append (h : skipSpace t ≠ []) (u : Text) : skipSpace (t ++ u) = skipSpace t ++ u :=
  (takeWhile_append_of_dropWhile isSpace h u).2

theorem takeName?_append {name : Text} (h : takeName? t = some (name, after)) (hne : after ≠ [])
    (u : Text) : takeName? (t ++ u) = some (name, after ++ u) := by
  unfold takeName? at h ⊢
  dsimp only at h ⊢
  split at h
  · next hq =>
    simp only [Option.some.injEq, Prod.mk.injEq] at h
    obtain ⟨rfl, rfl⟩ := h
    obtain ⟨htake, hdrop⟩ := takeWhile_append_of_dropWhile isQualifiedChar hne u
    rw [htake, hdrop, if_pos hq]
  · cases h

/-- The reader takes up the start of the text, whatever stands after it. -/
def Reads {α : Type} (read : Text → Option (α × Text)) (t : Text) (x : α) (after : Text) : Prop :=
  ∃ s, t = s ++ after ∧ ∀ u, read (s ++ u) = some (x, u)

theorem Reads.append {α : Type} {read : Text → Option (α × Text)} {x : α} (h : Reads read t x after) (u : Text) :
    read (t ++ u) = some (x, after ++ u) := by
  obtain ⟨s, rfl, hs⟩ := h
  rw [List.append_assoc]
  exact hs _

theorem reads_numberReference? {base : Nat} {p : Piece} (h : numberReference? base t = some (p, after)) :
    Reads (numberReference? base) t p after := by
  simp only [numberReference?, Option.bind_eq_bind, Option.bind_eq_some_iff, Option.pure_def, Option.some.injEq,
    Prod.mk.injEq] at h
  obtain ⟨⟨digits, rest⟩, hcut, n, hn, c, hc, rfl, rfl⟩ := h
  obtain ⟨hfree, rfl⟩ := Text.cutFirst?_eq_some_iff.1 hcut
  refine ⟨digits ++ [';'], rfl, fun u => ?_⟩
  rw [numberReference?, hfree.cutFirst? u]
  simp [hn, hc]

theorem reads_entityReference? {p : Piece} (h : entityReference? t = some (p, after)) :
    Reads entityReference? t p after := by
  simp only [entityReference?, Option.bind_eq_bind, Option.bind_eq_some_iff] at h
  obtain ⟨⟨name, rest⟩, hcut, h⟩ := h
  obtain ⟨hfree, rfl⟩ := Text.cutFirst?_eq_some_iff.1 hcut
  dsimp only at h
  have hread : ∀ u, entityReference? (name ++ [';'] ++ u) = some (p, u) ∧ rest = after := by
    intro u
    rw [entityReference?, hfree.cutFirst? u]
    dsimp only [Option.bind_eq_bind, Option.bind_some]
    split at h
    · next hname =>
      rw [if_pos hname]
      split at h <;>
      · obtain ⟨rfl, rfl⟩ := Prod.mk.inj (Option.some.inj h)
        exact ⟨rfl, rfl⟩
    · cases h
  exact ⟨name ++ [';'], by rw [(hread []).2], fun u => (hread u).1⟩

theorem reads_reference? {p : Piece} (h : reference? t = some (p, after)) : Reads reference? t p after := by
  unfold reference? at h
  split at h
  · obtain ⟨s, rfl, hs⟩ := reads_numberReference? h
    exact ⟨'#' :: 'x' :: s, rfl, fun u => hs u⟩
  · next t hx =>
    obtain ⟨s, rfl, hs⟩ := reads_numberReference? h
    refine ⟨'#' :: s, rfl, fun u => ?_⟩
    cases s with
    | nil => exact absurd (hs []) (by simp [numberReference?, Text.cutFirst?, Text.dropStart?])
    | cons c s =>
      have hc : c ≠ 'x' := fun he => hx (s ++ after) (by rw [he]; rfl)
      simpa [reference?, hc] using hs u
  · next hx hhash =>
    obtain ⟨s, rfl, hs⟩ := reads_entityReference? h
    refine ⟨s, rfl, fun u => ?_⟩
    cases s with
    | nil => exact absurd (hs []) (by simp [entityReference?, Text.cutFirst?, Text.dropStart?])
    | cons c s =>
      have hc : c ≠ '#' := fun he => hhash (s ++ after) (by rw [he]; rfl)
      simpa [reference?, hc] using hs u

theorem reference?_append {p : Piece} (h : reference? t = some (p, after)) (u : Text) :
    reference? (t ++ u) = some (p, after ++ u) :=
  (reads_reference? h).append u

/-! ## Attributes and tags -/

theorem value?_reference {quote : Option Char} {p : Piece} (hq : quote ≠ some '&')
    (hr : reference? t = some (p, after)) :
    value? quote ('&' :: t) = (value? quote after).map fun (ps, after) => (p :: ps, after) := by
  rw [value?, if_neg hq, if_neg (by decide), if_pos rfl]
  split
  · next hr' =>
    rw [hr] at hr'
    cases hr'
  · next hr' =>
    rw [hr] at hr'
    cases hr'
    rfl

/-- A value ends with its quote. -/
theorem reads_value? {quote : Char} {ps : List Piece} (h : value? (some quote) t = some (ps, after)) :
    ∃ s, t = s ++ quote :: after ∧ ∀ u, value? (some quote) (s ++ quote :: u) = some (ps, u) := by
  generalize hquote : some quote = q at h
  fun_induction value? q t generalizing ps after with
  | case1 hnone =>
    subst hquote
    cases hnone
  | case2 => cases h
  | case3 c rest heq =>
    obtain ⟨rfl, rfl⟩ := Prod.mk.inj (Option.some.inj h)
    obtain rfl := Option.some.inj (hquote.trans heq)
    refine ⟨[], rfl, fun u => ?_⟩
    rw [List.nil_append, value?, if_pos heq]
  | case4 => cases h
  | case5 => cases h
  | case6 rest p r hr heq hlt ih =>
    obtain ⟨⟨qs, r'⟩, hv, he⟩ := Option.map_eq_some_iff.1 h
    obtain ⟨rfl, rfl⟩ := Prod.mk.inj he
    obtain ⟨s, rfl, hs⟩ := ih hv
    obtain ⟨s', rfl, hs'⟩ := reads_reference? hr
    refine ⟨'&' :: (s' ++ s), by simp, fun u => ?_⟩
    have hread := hs' (s ++ quote :: u)
    rw [List.cons_append, List.append_assoc, value?_reference heq hread, hs]
    rfl
  | case7 c rest heq hlt hamp hspace ih =>
    obtain ⟨⟨qs, r'⟩, hv, he⟩ := Option.map_eq_some_iff.1 h
    obtain ⟨rfl, rfl⟩ := Prod.mk.inj he
    obtain ⟨s, rfl, hs⟩ := ih hv
    refine ⟨c :: s, rfl, fun u => ?_⟩
    rw [List.cons_append, value?, if_neg heq, if_neg hlt, if_neg hamp, if_pos hspace, hs]
    rfl
  | case8 c rest heq hlt hamp hspace hlegal ih =>
    obtain ⟨⟨qs, r'⟩, hv, he⟩ := Option.map_eq_some_iff.1 h
    obtain ⟨rfl, rfl⟩ := Prod.mk.inj he
    obtain ⟨s, rfl, hs⟩ := ih hv
    refine ⟨c :: s, rfl, fun u => ?_⟩
    rw [List.cons_append, value?, if_neg heq, if_neg hlt, if_neg hamp, if_neg hspace, if_pos hlegal, hs]
    rfl
  | case9 => cases h

theorem of_takeName? {name : Text} (h : takeName? t = some (name, after)) :
    isQualifiedName name ∧ t = name ++ after ∧ ∀ c ∈ after.head?, ¬ isQualifiedChar c := by
  unfold takeName? at h
  dsimp only at h
  split at h
  · next hq =>
    obtain ⟨rfl, rfl⟩ := Prod.mk.inj (Option.some.inj h)
    refine ⟨hq, List.takeWhile_append_dropWhile.symm, fun c hc => ?_⟩
    have := List.head?_dropWhile_not isQualifiedChar t
    rw [hc] at this
    simpa using this
  · cases h

/-- After a name, what follows may be exchanged after its own first character. -/
theorem takeName?_of_head? {name u : Text} (h : takeName? t = some (name, after)) (hu : u.head? = after.head?) :
    takeName? (name ++ u) = some (name, u) := by
  unfold takeName? at h ⊢
  dsimp only at h ⊢
  split at h
  · next hq =>
    obtain ⟨rfl, rfl⟩ := Prod.mk.inj (Option.some.inj h)
    obtain ⟨htake, hdrop⟩ := @takeWhile_append_of_head? t isQualifiedChar u hu
    rw [htake, hdrop, if_pos hq]
  · cases h

/-- An attribute ends with the quote of its value. -/
theorem reads_attribute? {a : Text × List Piece} (h : attribute? t = some (a, after)) :
    ∃ s quote, (quote = '"' ∨ quote = '\'') ∧ t = s ++ quote :: after ∧
      ∀ u, attribute? (s ++ quote :: u) = some (a, u) := by
  simp only [attribute?, Option.bind_eq_bind, Option.bind_eq_some_iff] at h
  obtain ⟨⟨name, t₁⟩, hname, t₂, heq, h⟩ := h
  dsimp only at heq h
  replace heq : skipSpace t₁ = '=' :: t₂ := Text.eq_append_of_dropStart? heq
  cases hs : skipSpace t₂ with
  | nil => simp [hs] at h
  | cons quote t₃ =>
    rw [hs] at h
    dsimp only at h
    split at h
    · next hquote =>
      simp only [Option.bind_eq_some_iff, Option.pure_def, Option.some.injEq, Prod.mk.injEq] at h
      obtain ⟨⟨value, rest⟩, hv, rfl, rfl⟩ := h
      obtain ⟨s, rfl, hread⟩ := reads_value? hv
      obtain ⟨w, rfl, hw⟩ := reads_skipSpace heq
      obtain ⟨w', rfl, hw'⟩ := reads_skipSpace hs
      have hhead : ∀ x y : Text, (w ++ '=' :: x).head? = (w ++ '=' :: y).head? := by
        intro x y
        cases w <;> rfl
      refine ⟨name ++ (w ++ '=' :: (w' ++ quote :: s)), quote, hquote, ?_, fun u => ?_⟩
      · rw [(of_takeName? hname).2.1]
        simp
      · have htake := takeName?_of_head? hname (hhead (w' ++ quote :: (s ++ quote :: u)) _)
        simp only [List.append_assoc, List.cons_append, attribute?, htake, Option.bind_eq_bind, Option.bind_some, hw,
          Text.dropStart?, if_true, hw', if_pos hquote, hread, Option.pure_def]
    · cases h

theorem endTag?_append {token : Token} (h : endTag? t = some (token, after)) (u : Text) :
    endTag? (t ++ u) = some (token, after ++ u) := by
  unfold endTag? at h ⊢
  simp only [Option.bind_eq_bind, Option.bind_eq_some_iff, Option.pure_def, Option.some.injEq,
    Prod.mk.injEq] at h ⊢
  obtain ⟨⟨name, t₁⟩, hname, t₂, hend, rfl, rfl⟩ := h
  have h₁ : t₁ ≠ [] := by
    rintro rfl
    cases hend
  have h₂ : skipSpace t₁ ≠ [] := fun he => by dsimp only at hend; rw [he] at hend; cases hend
  refine ⟨(name, t₁ ++ u), takeName?_append hname h₁ u, t₂ ++ u, ?_, rfl, rfl⟩
  dsimp only
  rw [skipSpace_append h₂ u]
  exact Text.dropStart?_append_right hend u

/-- Where a tag ends no attribute begins. -/
theorem attribute?_of_tagEnd? {closed : Bool} (h : tagEnd? t = some (closed, after)) :
    attribute? t = none := by
  have hname : takeName? t = none := by
    unfold tagEnd? at h
    split at h
    · rfl
    · rfl
    · cases h
  rw [attribute?, hname]
  rfl

theorem tagEnd?_of_isSpace {c : Char} (h : isSpace c) (t : Text) : tagEnd? (c :: t) = none := by
  have h₁ : c ≠ '>' := by
    rintro rfl
    cases h
  have h₂ : c ≠ '/' := by
    rintro rfl
    cases h
  simp [tagEnd?, h₁, h₂]

theorem attributes?_of_attribute? {c : Char} {a : Text × List Piece} (hc : isSpace c)
    (ha : attribute? (skipSpace t) = some (a, after)) :
    attributes? (c :: t) =
      (attributes? after).map fun (more, closed, after) => (a :: more, closed, after) := by
  rw [attributes?.eq_def, tagEnd?_of_isSpace hc]
  dsimp only
  rw [if_pos hc]
  split
  · next ha' =>
    rw [ha] at ha'
    cases ha'
    rfl
  · next ha' =>
    rw [ha] at ha'
    cases ha'

theorem attributes?_of_tagEnd? {c : Char} {closed : Bool} (hc : isSpace c)
    (ht : tagEnd? (skipSpace t) = some (closed, after)) :
    attributes? (c :: t) = some ([], closed, after) := by
  rw [attributes?.eq_def, tagEnd?_of_isSpace hc]
  dsimp only
  rw [if_pos hc]
  split
  · next ha =>
    rw [attribute?_of_tagEnd? ht] at ha
    cases ha
  · rw [ht]
    rfl

/-- How a start tag ends: with a slash if the tag closes its element too. -/
def tagEnd (closed : Bool) : Text :=
  if closed then ['/', '>'] else ['>']

theorem tagEnd?_tagEnd (closed : Bool) (u : Text) : tagEnd? (tagEnd closed ++ u) = some (closed, u) := by
  cases closed <;> rfl

theorem eq_append_of_tagEnd? {closed : Bool} (h : tagEnd? t = some (closed, after)) :
    t = tagEnd closed ++ after := by
  unfold tagEnd? at h
  split at h
  · obtain ⟨rfl, rfl⟩ := Prod.mk.inj (Option.some.inj h)
    rfl
  · obtain ⟨rfl, rfl⟩ := Prod.mk.inj (Option.some.inj h)
    rfl
  · cases h

theorem skipSpace_spaces {s : Text} (hs : ∀ c ∈ s, isSpace c) (t : Text) : skipSpace (s ++ t) = skipSpace t :=
  List.dropWhile_append_of_pos hs

theorem attributes?_spaces {s : Text} (hs : ∀ c ∈ s, isSpace c) (closed : Bool) (u : Text) :
    attributes? (s ++ tagEnd closed ++ u) = some ([], closed, u) := by
  cases s with
  | nil => rw [List.nil_append, attributes?.eq_def, tagEnd?_tagEnd]
  | cons c s =>
    rw [List.forall_mem_cons] at hs
    have hskip : skipSpace (s ++ (tagEnd closed ++ u)) = tagEnd closed ++ u := by
      rw [skipSpace_spaces hs.2]
      cases closed <;> rfl
    rw [List.append_assoc, List.cons_append]
    refine attributes?_of_tagEnd? hs.1 ?_
    rw [hskip, tagEnd?_tagEnd]

/-- **Attributes end with a quote, and may be followed by other spaces and another end of the tag.** -/
theorem reads_attributes? {as : List (Text × List Piece)} {closed : Bool}
    (h : attributes? t = some (as, closed, after)) :
    ∃ s spaces, t = s ++ spaces ++ tagEnd closed ++ after ∧ (∀ c ∈ spaces, isSpace c) ∧
      (∀ c ∈ s.getLast?, c = '"' ∨ c = '\'') ∧
      ∀ spaces closed u, (∀ c ∈ spaces, isSpace c) →
        attributes? (s ++ spaces ++ tagEnd closed ++ u) = some (as, closed, u) := by
  fun_induction attributes? t generalizing as closed after with
  | case1 t closed' after' ht =>
    obtain ⟨rfl, he⟩ := Prod.mk.inj (Option.some.inj h)
    obtain ⟨rfl, rfl⟩ := Prod.mk.inj he
    exact ⟨[], [], eq_append_of_tagEnd? ht, by simp, by simp, fun spaces closed u hs =>
      attributes?_spaces hs closed u⟩
  | case2 => cases h
  | case3 c rest hspace a r ha hend ih =>
    obtain ⟨⟨more, c', r'⟩, hm, he⟩ := Option.map_eq_some_iff.1 h
    simp only [Prod.mk.injEq] at he
    obtain ⟨rfl, rfl, rfl⟩ := he
    obtain ⟨s, spaces, rfl, hspaces, hlast, hread'⟩ := ih hm
    obtain ⟨v, quote, hquote, hv, hattribute⟩ := reads_attribute? ha
    have hskip : ∀ u, skipSpace (rest.takeWhile isSpace ++ (v ++ quote :: u)) = v ++ quote :: u := by
      intro u
      refine (takeWhile_append_of_head? isSpace ?_).2
      rw [← skipSpace, hv]
      cases v <;> rfl
    refine ⟨c :: (rest.takeWhile isSpace ++ v) ++ quote :: s, spaces, ?_, hspaces, ?_, fun spaces closed u hs => ?_⟩
    · have hrest : rest = rest.takeWhile isSpace ++ skipSpace rest := List.takeWhile_append_dropWhile.symm
      rw [hv] at hrest
      simpa using hrest
    · intro x hx
      rw [List.getLast?_append, List.getLast?_cons, Option.some_or, Option.mem_some_iff] at hx
      rw [← hx]
      cases hs : s.getLast? with
      | none => exact hquote
      | some y => exact hlast y hs
    · have ha := hattribute (s ++ spaces ++ tagEnd closed ++ u)
      rw [← hskip] at ha
      have hread := attributes?_of_attribute? hspace ha
      rw [hread' spaces closed u hs, Option.map_some] at hread
      simpa using hread
  | case4 c rest hspace ha hend =>
    obtain ⟨⟨c', r'⟩, hm, he⟩ := Option.map_eq_some_iff.1 h
    simp only [Prod.mk.injEq] at he
    obtain ⟨rfl, rfl, rfl⟩ := he
    refine ⟨[], c :: rest.takeWhile isSpace, ?_, ?_, by simp, fun spaces closed u hs =>
      attributes?_spaces hs closed u⟩
    · have := eq_append_of_tagEnd? hm
      rw [List.nil_append, List.append_assoc, ← this, List.cons_append]
      exact congrArg _ List.takeWhile_append_dropWhile.symm
    · exact List.forall_mem_cons.2 ⟨hspace, fun x hx => List.mem_takeWhile_imp hx⟩
  | case5 => cases h

/-- Attributes begin with a space, unless there are none. -/
theorem isSpace_of_attributes? {c : Char} {as : List (Text × List Piece)} {closed : Bool}
    (h : attributes? (c :: t) = some (as, closed, after)) : isSpace c ∨ c = '/' ∨ c = '>' := by
  rw [attributes?.eq_def] at h
  split at h
  · next closed' _ ht =>
    have he := eq_append_of_tagEnd? ht
    cases closed' with
    | false => exact .inr (.inr (List.cons.inj he).1)
    | true => exact .inr (.inl (List.cons.inj he).1)
  · dsimp only at h
    split at h
    · next hspace => exact .inl hspace
    · cases h

theorem attributes?_append {as : List (Text × List Piece)} {closed : Bool}
    (h : attributes? t = some (as, closed, after)) (u : Text) :
    attributes? (t ++ u) = some (as, closed, after ++ u) := by
  obtain ⟨s, spaces, rfl, hspaces, -, hread⟩ := reads_attributes? h
  rw [List.append_assoc]
  exact hread _ _ _ hspaces

theorem startTag?_append {tokens : List Token} (h : startTag? t = some (tokens, after)) (u : Text) :
    startTag? (t ++ u) = some (tokens, after ++ u) := by
  unfold startTag? at h ⊢
  simp only [Option.bind_eq_bind, Option.bind_eq_some_iff, Option.pure_def, Option.some.injEq,
    Prod.mk.injEq] at h ⊢
  obtain ⟨⟨name, t₁⟩, hname, ⟨as, closed, r⟩, has, rfl, rfl⟩ := h
  have h₁ : t₁ ≠ [] := by
    rintro rfl
    simp [attributes?, tagEnd?] at has
  exact ⟨_, takeName?_append hname h₁ u, _, attributes?_append has u, rfl, rfl⟩

/-! ## Tokens -/

theorem comment?_append (h : comment? t = some after) (u : Text) :
    comment? (t ++ u) = some (after ++ u) := by
  unfold comment? at h ⊢
  simp only [Option.bind_eq_bind, Option.bind_eq_some_iff] at h ⊢
  obtain ⟨⟨body, rest⟩, hcut, h⟩ := h
  refine ⟨_, Text.cutFirst?_append_right hcut u, ?_⟩
  split at h
  · next hlegal =>
    rw [if_pos hlegal]
    exact Text.dropStart?_append_right h u
  · cases h

theorem instruction?_append (h : instruction? t = some after) (u : Text) :
    instruction? (t ++ u) = some (after ++ u) := by
  unfold instruction? at h ⊢
  simp only [Option.bind_eq_bind, Option.bind_eq_some_iff] at h ⊢
  obtain ⟨⟨body, rest⟩, hcut, h⟩ := h
  have hne : t.dropWhile isNameChar ≠ [] := fun he => by rw [he] at hcut; cases hcut
  obtain ⟨htake, hdrop⟩ := takeWhile_append_of_dropWhile isNameChar hne u
  rw [htake, hdrop]
  refine ⟨_, Text.cutFirst?_append_right hcut u, ?_⟩
  split at h
  · next hform =>
    obtain rfl := Option.some.inj h
    rw [if_pos hform]
  · cases h

theorem characterData?_append {tokens : List Token} (h : characterData? t = some (tokens, after))
    (u : Text) : characterData? (t ++ u) = some (tokens, after ++ u) := by
  unfold characterData? at h ⊢
  simp only [Option.bind_eq_bind, Option.bind_eq_some_iff] at h ⊢
  obtain ⟨⟨body, rest⟩, hcut, h⟩ := h
  refine ⟨_, Text.cutFirst?_append_right hcut u, ?_⟩
  split at h
  · next hlegal =>
    simp only [Option.some.injEq, Prod.mk.injEq] at h
    obtain ⟨rfl, rfl⟩ := h
    rw [if_pos hlegal]
  · cases h

theorem markup?_append {tokens : List Token} (h : markup? t = some (tokens, after)) (u : Text) :
    markup? (t ++ u) = some (tokens, after ++ u) := by
  unfold markup? at h
  split at h
  · next t' hd =>
    obtain ⟨r, hc, he⟩ := Option.map_eq_some_iff.1 h
    simp only [Prod.mk.injEq] at he
    obtain ⟨rfl, rfl⟩ := he
    simp [markup?, Text.dropStart?_append_right hd u, comment?_append hc u]
  · split at h
    · next t' hd' =>
      rw [Text.eq_append_of_dropStart? hd', List.append_assoc]
      exact characterData?_append h u
    · split at h
      · obtain ⟨r, hc, he⟩ := Option.map_eq_some_iff.1 h
        simp only [Prod.mk.injEq] at he
        obtain ⟨rfl, rfl⟩ := he
        simp [markup?, Text.dropStart?, instruction?_append hc u]
      · obtain ⟨⟨token, r⟩, hc, he⟩ := Option.map_eq_some_iff.1 h
        simp only [Prod.mk.injEq] at he
        obtain ⟨rfl, rfl⟩ := he
        simp [markup?, Text.dropStart?, endTag?_append hc u]
      · next hquestion hslash =>
        cases t with
        | nil => cases h
        | cons c t =>
          have h₁ : c ≠ '?' := fun he => hquestion t (by rw [he])
          have h₂ : c ≠ '/' := fun he => hslash t (by rw [he])
          have h₃ : c ≠ '!' := by
            rintro rfl
            cases h
          have := startTag?_append h u
          simpa [markup?, Text.dropStart?, h₁, h₂, h₃.symm] using this

/-- A legal character is read as it is, unless it begins markup or ends a section of plain
characters. -/
theorem next?_char {c : Char} (hlegal : isLegal c) (hlt : c ≠ '<') (hamp : c ≠ '&')
    (h : c = ']' → ∀ u, t ≠ ']' :: '>' :: u) : next? (c :: t) = some ([.char c], t) := by
  unfold next?
  split
  · next heq => cases heq
  · next heq => exact absurd (List.cons.inj heq).1 hlt
  · next heq => exact absurd (List.cons.inj heq).1 hamp
  · next heq =>
    obtain ⟨hc, ht⟩ := List.cons.inj heq
    exact absurd ht (h hc _)
  · next heq =>
    obtain ⟨rfl, rfl⟩ := List.cons.inj heq
    rw [if_pos hlegal]

/-- **Tokens are read from the start of a text, whatever tag stands after it.** -/
theorem next?_append {tokens : List Token} {u : Text} (h : next? t = some (tokens, after))
    (hu : u.head? = some '<') : next? (t ++ u) = some (tokens, after ++ u) := by
  unfold next? at h
  split at h
  · cases h
  · exact markup?_append h u
  · obtain ⟨⟨piece, r⟩, hc, he⟩ := Option.map_eq_some_iff.1 h
    simp only [Prod.mk.injEq] at he
    obtain ⟨rfl, rfl⟩ := he
    simp [next?, reference?_append hc u]
  · cases h
  · next c t hlt hamp hclose =>
    split at h
    · next hlegal =>
      simp only [Option.some.injEq, Prod.mk.injEq] at h
      obtain ⟨rfl, rfl⟩ := h
      refine next?_char hlegal hlt hamp fun hc w (hw : t ++ u = _) => ?_
      -- Neither of the two further characters can be the first one of the tag.
      rcases t with _ | ⟨a, _ | ⟨b, t⟩⟩
      · rw [List.nil_append] at hw
        simp [hw] at hu
      · simp only [List.cons_append, List.nil_append, List.cons.injEq] at hw
        simp [hw.2] at hu
      · simp only [List.cons_append, List.cons.injEq] at hw
        obtain ⟨rfl, rfl, -⟩ := hw
        exact hclose t hc rfl
    · cases h

/-! ## Content -/

/-- What is lexed, after other tokens. -/
def Lexed.prepend (tokens : List Token) (l : Lexed) : Lexed :=
  { l with tokens := tokens ++ l.tokens }

theorem Lexed.prepend_prepend (ts us : List Token) (l : Lexed) :
    (l.prepend us).prepend ts = l.prepend (ts ++ us) := by
  simp [Lexed.prepend]

theorem lex_nil (depth : Nat) : lex depth [] = some ⟨[], depth, []⟩ := by
  rw [lex, if_pos rfl]

theorem lex_of_next? {depth d : Nat} {tokens : List Token} (h : next? t = some (tokens, after))
    (hd : depthAfter depth tokens = some (d + 1)) :
    lex depth t = (lex (d + 1) after).map (Lexed.prepend tokens) := by
  have hne : t ≠ [] := by
    rintro rfl
    cases h
  rw [lex, if_neg hne]
  split
  · next hn =>
    rw [h] at hn
    cases hn
  · next hn =>
    rw [h] at hn
    cases hn
    rw [hd]
    rfl

/-- Nothing is cut any more where the outermost element is closed. -/
theorem lex_of_closed {depth : Nat} {tokens : List Token} (h : next? t = some (tokens, after))
    (hd : depthAfter depth tokens = some 0) : lex depth t = some ⟨tokens, 0, after⟩ := by
  have hne : t ≠ [] := by
    rintro rfl
    cases h
  rw [lex, if_neg hne]
  split
  · next hn =>
    rw [h] at hn
    cases hn
  · next hn =>
    rw [h] at hn
    cases hn
    rw [hd]
    rfl

/-- A text in which elements are left open is read to its end, token by token. -/
theorem lex_open_cases {depth k : Nat} {tokens : List Token}
    (h : lex depth t = some ⟨tokens, k + 1, []⟩) (hne : t ≠ []) :
    ∃ ts after d us, next? t = some (ts, after) ∧ depthAfter depth ts = some (d + 1) ∧
      lex (d + 1) after = some ⟨us, k + 1, []⟩ ∧ tokens = ts ++ us := by
  rw [lex, if_neg hne] at h
  split at h
  · cases h
  · next ts after hn =>
    split at h
    · cases h
    · cases h
    · next d hd hdepth =>
      obtain ⟨more, hm, he⟩ := Option.map_eq_some_iff.1 h
      obtain ⟨us, dm, rm⟩ := more
      cases he
      obtain ⟨d, rfl⟩ := Nat.exists_eq_succ_of_ne_zero hd
      exact ⟨ts, after, d, us, hn, hdepth, hm, rfl⟩

/-- **The tokens of a text in which elements are left open come before those of the text after it.** -/
theorem lex_append {depth k : Nat} {tokens : List Token} {u : Text}
    (h : lex depth t = some ⟨tokens, k + 1, []⟩) (hu : u.head? = some '<') :
    lex depth (t ++ u) = (lex (k + 1) u).map (Lexed.prepend tokens) := by
  induction hn : t.length using Nat.strongRecOn generalizing t depth tokens with
  | ind n ih =>
    by_cases hne : t = []
    · subst hne
      rw [lex_nil] at h
      cases h
      rw [List.nil_append]
      exact (Option.map_id').symm
    · obtain ⟨ts, after, d, us, hnext, hd, hlex, rfl⟩ := lex_open_cases h hne
      have hlt : after.length < n := hn ▸ length_of_next? hnext
      rw [lex_of_next? (next?_append hnext hu) hd, ih _ hlt hlex rfl, Option.map_map]
      congr 1
      funext l
      exact Lexed.prepend_prepend ts us l

end MailMerge.Xml
