import MailMerge.Text.Basic
import MailMerge.Text.Class
import Mathlib.Data.List.TakeWhile

/-!
# Parts of texts

A text is free of a part up to its end if the part, put after it, occurs there for the first time.
So the first occurrence of a part in any text is found from the texts on its two sides alone.

Blanks at the ends of a text do not matter once it is trimmed, and a text that begins and ends with
something else is trimmed already.

**`cutFirst?_eq_some_iff`**: a text is cut at the first occurrence of a part exactly where the part
follows a text that is free of it.

**`trim_blanks`**: a text between blanks is trimmed as the text alone.
-/

namespace MailMerge.Text

section

variable {part t u before after : Text}

/-- What holds of all characters of a text is decided by looking at these only. -/
instance (P : Char → Prop) [DecidablePred P] (t : Text) : Decidable (∀ c ∈ t, P c) :=
  List.decidableBAll P t

/-! ## The start of a text -/

@[simp] theorem dropStart?_nil (t : Text) : dropStart? [] t = some t := by
  simp [dropStart?]

@[simp] theorem dropStart?_append (part u : Text) : dropStart? part (part ++ u) = some u := by
  induction part with
  | nil => simp
  | cons p part ih => simpa [dropStart?] using ih

theorem dropStart?_append_right (h : dropStart? part t = some after) (u : Text) :
    dropStart? part (t ++ u) = some (after ++ u) := by
  rw [eq_append_of_dropStart? h, List.append_assoc]
  exact dropStart?_append part (after ++ u)

theorem dropStart?_append_eq_none (h : dropStart? part t = none) (hl : part.length ≤ t.length)
    (u : Text) : dropStart? part (t ++ u) = none := by
  induction part generalizing t with
  | nil => simp at h
  | cons p part ih =>
    cases t with
    | nil => simp at hl
    | cons c t =>
      by_cases hc : p = c
      · simp only [dropStart?, if_pos hc, List.cons_append] at h ⊢
        exact ih h (by simpa using hl)
      · simp [dropStart?, hc]

/-! ## The first occurrence -/

theorem cutFirst?_of_dropStart? (h : dropStart? part t = some after) :
    cutFirst? part t = some ([], after) := by
  rw [cutFirst?.eq_def, h]

theorem cutFirst?_cons (c : Char) (h : dropStart? part (c :: t) = none) :
    cutFirst? part (c :: t) = (cutFirst? part t).map fun (before, after) => (c :: before, after) := by
  rw [cutFirst?, h]

theorem cutFirst?_append_right (h : cutFirst? part t = some (before, after)) (u : Text) :
    cutFirst? part (t ++ u) = some (before, after ++ u) := by
  induction t generalizing before with
  | nil =>
    cases hd : dropStart? part [] with
    | none => simp [cutFirst?, hd] at h
    | some rest =>
      rw [cutFirst?_of_dropStart? hd, Option.some.injEq, Prod.mk.injEq] at h
      obtain ⟨rfl, rfl⟩ := h
      exact cutFirst?_of_dropStart? (dropStart?_append_right hd u)
  | cons c t ih =>
    cases hd : dropStart? part (c :: t) with
    | some rest =>
      rw [cutFirst?_of_dropStart? hd, Option.some.injEq, Prod.mk.injEq] at h
      obtain ⟨rfl, rfl⟩ := h
      exact cutFirst?_of_dropStart? (dropStart?_append_right hd u)
    | none =>
      rw [cutFirst?_cons c hd] at h
      obtain ⟨⟨b, a⟩, hb, he⟩ := Option.map_eq_some_iff.1 h
      simp only [Prod.mk.injEq] at he
      obtain ⟨rfl, rfl⟩ := he
      have hl : part.length ≤ (c :: t).length := by
        have := length_of_cutFirst? hb
        simp only [List.length_cons]
        omega
      have hd' : dropStart? part (c :: (t ++ u)) = none := dropStart?_append_eq_none hd hl u
      rw [List.cons_append, cutFirst?_cons c hd', ih hb]
      rfl

/-- The part, put after the text, occurs there for the first time. -/
def FreeOf (part t : Text) : Prop :=
  cutFirst? part (t ++ part) = some (t, [])

instance : Decidable (FreeOf part t) :=
  inferInstanceAs (Decidable (_ = _))

theorem FreeOf.cutFirst? (h : FreeOf part t) (u : Text) :
    cutFirst? part (t ++ part ++ u) = some (t, u) := by
  simpa using cutFirst?_append_right h u

/-- A character cannot stand before its first occurrence. -/
theorem freeOf_singleton {c : Char} (h : c ∉ t) : FreeOf [c] t := by
  induction t with
  | nil => simp [FreeOf, Text.cutFirst?, dropStart?]
  | cons x t ih =>
    rw [List.mem_cons, not_or] at h
    have hx : dropStart? [c] (x :: (t ++ [c])) = none := by simp [dropStart?, h.1]
    have ih := ih h.2
    rw [FreeOf] at ih
    rw [FreeOf, List.cons_append, cutFirst?_cons x hx, ih]
    rfl

theorem notMem_of_cutFirst? {c : Char} (h : Text.cutFirst? [c] t = some (before, after)) :
    c ∉ before := by
  induction t generalizing before after with
  | nil => simp [Text.cutFirst?, dropStart?] at h
  | cons x t ih =>
    by_cases hx : c = x
    · have hd : dropStart? [c] (x :: t) = some t := by simp [dropStart?, hx]
      rw [cutFirst?_of_dropStart? hd] at h
      obtain ⟨rfl, -⟩ := Prod.mk.inj (Option.some.inj h)
      simp
    · have hd : dropStart? [c] (x :: t) = none := by simp [dropStart?, hx]
      rw [cutFirst?_cons x hd] at h
      obtain ⟨⟨b, a⟩, hb, he⟩ := Option.map_eq_some_iff.1 h
      obtain ⟨rfl, -⟩ := Prod.mk.inj he
      exact List.not_mem_cons_of_ne_of_not_mem hx (ih hb)

theorem freeOf_of_cutFirst?_append
    (h : cutFirst? part (before ++ part ++ after) = some (before, after)) : FreeOf part before := by
  induction before with
  | nil => exact cutFirst?_of_dropStart? (by simpa using dropStart?_append part [])
  | cons c before ih =>
    -- The part cannot start at the first character, for then nothing would stand before it.
    have hd : dropStart? part (c :: before ++ part ++ after) = none := by
      cases hd : dropStart? part (c :: before ++ part ++ after) with
      | none => rfl
      | some rest =>
        rw [cutFirst?_of_dropStart? hd] at h
        simp at h
    have hd' : dropStart? part (c :: (before ++ part)) = none := by
      cases hd' : dropStart? part (c :: (before ++ part)) with
      | none => rfl
      | some rest =>
        have := dropStart?_append_right hd' after
        simp only [List.cons_append] at this hd
        rw [hd] at this
        cases this
    simp only [List.cons_append] at h hd
    rw [cutFirst?_cons c hd] at h
    obtain ⟨⟨b, a⟩, hb, he⟩ := Option.map_eq_some_iff.1 h
    simp only [Prod.mk.injEq, List.cons.injEq, true_and] at he
    obtain ⟨rfl, rfl⟩ := he
    show Text.cutFirst? part (c :: (b ++ part)) = _
    rw [cutFirst?_cons c hd', show Text.cutFirst? part (b ++ part) = some (b, []) from ih hb]
    rfl

theorem freeOf_of_cutFirst? (h : cutFirst? part t = some (before, after)) :
    FreeOf part before := by
  rw [eq_append_of_cutFirst? h] at h
  exact freeOf_of_cutFirst?_append h

theorem cutFirst?_eq_some_iff :
    cutFirst? part t = some (before, after) ↔ FreeOf part before ∧ t = before ++ part ++ after := by
  constructor
  · intro h
    exact ⟨freeOf_of_cutFirst? h, eq_append_of_cutFirst? h⟩
  · rintro ⟨h, rfl⟩
    exact h.cutFirst? after

theorem FreeOf.tail {c : Char} (h : FreeOf part (c :: t)) : FreeOf part t := by
  unfold FreeOf at h ⊢
  cases hd : dropStart? part (c :: t ++ part) with
  | some rest =>
    rw [cutFirst?_of_dropStart? hd] at h
    simp at h
  | none =>
    rw [List.cons_append] at h hd
    rw [cutFirst?_cons c hd] at h
    obtain ⟨⟨b, a⟩, hb, he⟩ := Option.map_eq_some_iff.1 h
    simp only [Prod.mk.injEq, List.cons.injEq, true_and] at he
    obtain ⟨rfl, rfl⟩ := he
    exact hb

theorem FreeOf.dropStart?_eq_none {c : Char} (h : FreeOf part (c :: t)) :
    dropStart? part (c :: t ++ part) = none := by
  cases hd : dropStart? part (c :: t ++ part) with
  | none => rfl
  | some rest =>
    unfold FreeOf at h
    rw [cutFirst?_of_dropStart? hd] at h
    simp at h

/-- Every occurrence of the part stands at or behind the first one. -/
theorem prefix_of_cutFirst? {g r a b : Text} (h : cutFirst? part (a ++ part ++ b) = some (g, r)) :
    g <+: a := by
  induction a generalizing g with
  | nil =>
    rw [List.nil_append, cutFirst?_of_dropStart? (dropStart?_append part b), Option.some.injEq,
      Prod.mk.injEq] at h
    exact h.1 ▸ List.nil_prefix
  | cons c a ih =>
    simp only [List.cons_append] at h
    cases hd : dropStart? part (c :: (a ++ part ++ b)) with
    | some rest =>
      rw [cutFirst?_of_dropStart? hd, Option.some.injEq, Prod.mk.injEq] at h
      rw [← h.1]
      exact List.nil_prefix
    | none =>
      rw [cutFirst?_cons c hd] at h
      obtain ⟨⟨g', r'⟩, hc, he⟩ := Option.map_eq_some_iff.1 h
      simp only [Prod.mk.injEq] at he
      obtain ⟨rfl, rfl⟩ := he
      exact List.cons_prefix_cons.2 ⟨rfl, ih hc⟩

theorem cutFirst?_append_ne_none (part before after : Text) :
    cutFirst? part (before ++ part ++ after) ≠ none := by
  induction before with
  | nil =>
    rw [List.nil_append, cutFirst?_of_dropStart? (dropStart?_append part after)]
    simp
  | cons c before ih =>
    simp only [List.cons_append]
    cases hd : dropStart? part (c :: (before ++ part ++ after)) with
    | some rest =>
      rw [cutFirst?_of_dropStart? hd]
      simp
    | none =>
      rw [cutFirst?_cons c hd]
      simpa using ih

theorem cutFirst?_eq_none_iff : cutFirst? part t = none ↔ ∀ a b, t ≠ a ++ part ++ b := by
  constructor
  · rintro h a b rfl
    exact cutFirst?_append_ne_none part a b h
  · intro h
    cases hc : cutFirst? part t with
    | none => rfl
    | some p => exact absurd (eq_append_of_cutFirst? hc) (h p.1 p.2)

theorem contains_iff : contains part t = true ↔ ∃ a b, t = a ++ part ++ b := by
  rw [contains, Option.isSome_iff_ne_none, Ne, cutFirst?_eq_none_iff]
  simp

theorem contains_eq_false_iff : contains part t = false ↔ ∀ a b, t ≠ a ++ part ++ b := by
  rw [contains, Option.isSome_eq_false_iff, Option.isNone_iff_eq_none, cutFirst?_eq_none_iff]

theorem FreeOf.right {s : Text} (h : FreeOf part (s ++ t)) : FreeOf part t := by
  induction s with
  | nil => exact h
  | cons c s ih => exact ih h.tail

/-- A part cannot begin where its first character does not stand. -/
theorem cutFirst?_append_of_notMem {p : Char} {part s : Text} (hs : p ∉ s) (t : Text) :
    cutFirst? (p :: part) (s ++ t) =
      (cutFirst? (p :: part) t).map fun (before, after) => (s ++ before, after) := by
  induction s with
  | nil => simp
  | cons c s ih =>
    rw [List.mem_cons, not_or] at hs
    rw [List.cons_append, cutFirst?_cons c (by simp [dropStart?, hs.1]), ih hs.2, Option.map_map]
    rfl

theorem FreeOf.append_left {p : Char} {part s : Text} (hs : p ∉ s) (h : FreeOf (p :: part) t) :
    FreeOf (p :: part) (s ++ t) := by
  rw [FreeOf, List.append_assoc, cutFirst?_append_of_notMem hs, show Text.cutFirst? _ _ = _ from h]
  rfl

theorem dropStart?_append_cons {c : Char} (h : dropStart? part t = none) (hc : c ∉ part) (u : Text) :
    dropStart? part (t ++ c :: u) = none := by
  induction part generalizing t with
  | nil => simp at h
  | cons p part ih =>
    rw [List.mem_cons, not_or] at hc
    cases t with
    | nil => simp [dropStart?, Ne.symm hc.1]
    | cons x t =>
      by_cases hx : p = x
      · simp only [dropStart?, if_pos hx, List.cons_append] at h ⊢
        exact ih h hc.2
      · simp [dropStart?, hx]

theorem dropStart?_append_of_notMem (h : dropStart? part t = none) (hu : ∀ c ∈ part, c ∉ u) :
    dropStart? part (t ++ u) = none := by
  cases u with
  | nil => rwa [List.append_nil]
  | cons c u => exact dropStart?_append_cons h (fun hc => hu c hc List.mem_cons_self) u

/-- A part cannot reach into a text where none of its characters stands. -/
theorem cutFirst?_append_of_forall_notMem (hp : part ≠ []) (t : Text) (hu : ∀ c ∈ part, c ∉ u) :
    cutFirst? part (t ++ u) =
      (cutFirst? part t).map fun (before, after) => (before, after ++ u) := by
  induction t with
  | nil =>
    obtain ⟨p, part, rfl⟩ := List.exists_cons_of_ne_nil hp
    have hnone : Text.cutFirst? (p :: part) u = none := by
      refine cutFirst?_eq_none_iff.2 fun a b he => ?_
      refine hu p List.mem_cons_self ?_
      rw [he]
      simp
    rw [List.nil_append, hnone]
    rfl
  | cons c t ih =>
    cases hd : dropStart? part (c :: t) with
    | some rest =>
      rw [cutFirst?_of_dropStart? hd, cutFirst?_of_dropStart? (dropStart?_append_right hd u)]
      rfl
    | none =>
      have hd' : dropStart? part (c :: (t ++ u)) = none := dropStart?_append_of_notMem hd hu
      rw [List.cons_append, cutFirst?_cons c hd', cutFirst?_cons c hd, ih, Option.map_map,
        Option.map_map]
      rfl

/-- A part cannot reach over a character that it does not have. -/
theorem cutFirst?_append_cons {c : Char} (hp : part ≠ []) (hc : c ∉ part) (h : cutFirst? part t = none)
    (u : Text) :
    cutFirst? part (t ++ c :: u) =
      (cutFirst? part u).map fun (before, after) => (t ++ c :: before, after) := by
  induction t with
  | nil =>
    obtain ⟨p, part, rfl⟩ := List.exists_cons_of_ne_nil hp
    exact cutFirst?_cons c (dropStart?_append_cons (t := []) rfl hc u)
  | cons x t ih =>
    cases hd : dropStart? part (x :: t) with
    | some rest =>
      rw [cutFirst?_of_dropStart? hd] at h
      cases h
    | none =>
      have ht : Text.cutFirst? part t = none := by
        rw [cutFirst?_cons x hd] at h
        exact Option.map_eq_none_iff.1 h
      have hd' : dropStart? part (x :: (t ++ c :: u)) = none := dropStart?_append_cons hd hc u
      rw [List.cons_append, cutFirst?_cons x hd', ih ht, Option.map_map]
      rfl

/-- The part follows only one text that is free of it. -/
theorem FreeOf.unique {s after' : Text} (hs : FreeOf part s) (ht : FreeOf part t)
    (h : s ++ part ++ after = t ++ part ++ after') : s = t ∧ after = after' := by
  have hc := hs.cutFirst? after
  rw [h, ht.cutFirst? after'] at hc
  simpa [eq_comm] using hc

/-! ## The last occurrence -/

theorem eq_append_of_cutLast? (h : cutLast? part t = some (before, after)) :
    t = before ++ part ++ after := by
  induction t generalizing before with
  | nil =>
    obtain ⟨rest, hd, he⟩ := Option.map_eq_some_iff.1 h
    obtain ⟨rfl, rfl⟩ := Prod.mk.inj he
    simpa using eq_append_of_dropStart? hd
  | cons c t ih =>
    rw [cutLast?] at h
    cases hc : cutLast? part t with
    | some p =>
      simp only [hc, Option.some.injEq, Prod.mk.injEq] at h
      obtain ⟨rfl, rfl⟩ := h
      exact congrArg (c :: ·) (ih hc)
    | none =>
      simp only [hc] at h
      obtain ⟨rest, hd, he⟩ := Option.map_eq_some_iff.1 h
      obtain ⟨rfl, rfl⟩ := Prod.mk.inj he
      simpa using eq_append_of_dropStart? hd

theorem cutLast?_append_left (h : cutLast? part t = some (before, after)) (s : Text) :
    cutLast? part (s ++ t) = some (s ++ before, after) := by
  induction s with
  | nil => exact h
  | cons c s ih => rw [List.cons_append, cutLast?, ih, List.cons_append]

/-- What follows the last occurrence is not longer than what follows any other one. -/
theorem exists_cutLast? (part a b : Text) :
    ∃ before after, cutLast? part (a ++ part ++ b) = some (before, after) ∧ after.length ≤ b.length := by
  obtain ⟨x, y, hc, hle⟩ : ∃ x y, cutLast? part (part ++ b) = some (x, y) ∧ y.length ≤ b.length := by
    have hd : dropStart? part (part ++ b) = some b := dropStart?_append part b
    have hlen : (part ++ b).length = part.length + b.length := List.length_append
    generalize part ++ b = t at hd hlen
    cases t with
    | nil => exact ⟨[], b, by rw [cutLast?, hd]; rfl, Nat.le_refl _⟩
    | cons c t =>
      cases hc : cutLast? part t with
      | some p =>
        refine ⟨c :: p.1, p.2, by rw [cutLast?, hc], ?_⟩
        have := congrArg List.length (eq_append_of_cutLast? hc)
        simp only [List.length_append, List.length_cons] at this hlen
        omega
      | none => exact ⟨[], b, by rw [cutLast?, hc, hd]; rfl, Nat.le_refl _⟩
  exact ⟨a ++ x, y, by rw [List.append_assoc, cutLast?_append_left hc a], hle⟩

theorem cutLast?_eq_none (h : contains part t = false) : cutLast? part t = none := by
  cases hc : cutLast? part t with
  | none => rfl
  | some cut => exact absurd (eq_append_of_cutLast? hc) (contains_eq_false_iff.1 h _ _)

/-- A part whose first character does not come again in it is the last one, if there is none in what follows it. -/
theorem cutLast?_append {c : Char} {part : Text} (hc : c ∉ part) (h : contains (c :: part) after = false)
    (before : Text) : cutLast? (c :: part) (before ++ (c :: part ++ after)) = some (before, after) := by
  have hnone : cutLast? (c :: part) (part ++ after) = none := by
    refine cutLast?_eq_none ?_
    rw [contains, cutFirst?_append_of_notMem hc, Option.isSome_map]
    exact h
  have hhere : cutLast? (c :: part) (c :: part ++ after) = some ([], after) := by
    rw [List.cons_append, cutLast?, hnone]
    dsimp only
    rw [← List.cons_append, dropStart?_append]
    rfl
  simpa using cutLast?_append_left hhere before

/-! ## Places -/

/-- The part stands in the text at an offset. -/
def StandsAt (t : Text) (offset : Nat) (part : Text) : Prop :=
  ∃ before after, t = before ++ part ++ after ∧ before.length = offset

theorem standsAt_self (t : Text) : StandsAt t 0 t :=
  ⟨[], [], by simp, rfl⟩

theorem StandsAt.left {offset : Nat} (h : StandsAt t offset (u ++ part)) : StandsAt t offset u := by
  obtain ⟨before, after, rfl, hl⟩ := h
  exact ⟨before, part ++ after, by simp, hl⟩

theorem StandsAt.right {offset : Nat} (h : StandsAt t offset (u ++ part)) :
    StandsAt t (offset + u.length) part := by
  obtain ⟨before, after, rfl, hl⟩ := h
  exact ⟨before ++ u, after, by simp, by simp [hl]⟩

theorem StandsAt.slice {offset : Nat} (h : StandsAt t offset part) :
    slice t offset (offset + part.length) = part := by
  obtain ⟨before, after, rfl, rfl⟩ := h
  rw [Text.slice, ← List.length_append, List.take_left, List.drop_left]

theorem ne_brace_of_isBlank {c : Char} (h : isBlank c) : c ≠ '{' ∧ c ≠ '}' := by
  constructor
  · rintro rfl
    revert h
    decide
  · rintro rfl
    revert h
    decide

end

section

variable {a t b : Text} {c : Char}

/-! ## Blanks -/

/-- What holds of all blanks, checked one by one. -/
theorem forall_isBlank {P : Char → Prop}
    (h : ∀ r ∈ blankRanges, ∀ j < r.2 + 1 - r.1, P (Char.ofNat (r.1 + j))) (hc : isBlank c) : P c := by
  obtain ⟨r, hr, hc⟩ := List.any_eq_true.1 hc
  simp only [Bool.and_eq_true, decide_eq_true_eq] at hc
  have := h r hr (c.toNat - r.1) (by omega)
  rwa [show r.1 + (c.toNat - r.1) = c.toNat by omega, Char.ofNat_toNat] at this

/-- A digit is not blank. -/
theorem isBlank_of_isDecimalDigit (h : isDecimalDigit c) : isBlank c = false := by
  rw [← Bool.not_eq_true]
  intro hc
  exact forall_isBlank (P := fun c => ¬ isDecimalDigit c) (by decide +kernel) hc h

/-! ## Trimming -/

theorem exists_trim (t : Text) :
    ∃ a b, t = a ++ trim t ++ b ∧ (∀ c ∈ a, isBlank c) ∧ ∀ c ∈ b, isBlank c := by
  refine ⟨t.takeWhile isBlank, ((trimStart t).reverse.takeWhile isBlank).reverse, ?_, ?_, ?_⟩
  · have hend : trimStart t =
        trim t ++ ((trimStart t).reverse.takeWhile isBlank).reverse := by
      rw [trim, trimEnd, ← List.reverse_append, List.takeWhile_append_dropWhile, List.reverse_reverse]
    rw [List.append_assoc, ← hend]
    exact List.takeWhile_append_dropWhile.symm
  · intro c hc
    exact List.mem_takeWhile_imp hc
  · intro c hc
    exact List.mem_takeWhile_imp (List.mem_reverse.1 hc)

theorem trimStart_blanks (ha : ∀ c ∈ a, isBlank c) (t : Text) : trimStart (a ++ t) = trimStart t :=
  List.dropWhile_append_of_pos ha

theorem trimEnd_blanks (t : Text) (hb : ∀ c ∈ b, isBlank c) : trimEnd (t ++ b) = trimEnd t := by
  rw [trimEnd, List.reverse_append,
    List.dropWhile_append_of_pos fun c hc => hb c (List.mem_reverse.1 hc), trimEnd]

theorem trim_blanks (ha : ∀ c ∈ a, isBlank c) (hb : ∀ c ∈ b, isBlank c) (t : Text) :
    trim (a ++ t ++ b) = trim t := by
  rw [trim, List.append_assoc, trimStart_blanks ha, trim]
  by_cases ht : ∀ c ∈ t, isBlank c
  · -- Nothing but blanks is left, on both sides.
    have hleft : trimStart (t ++ b) = [] := by
      rw [trimStart_blanks ht]
      exact List.dropWhile_eq_nil_iff.2 hb
    rw [hleft, show trimStart t = [] from List.dropWhile_eq_nil_iff.2 ht]
  · have hstart : trimStart (t ++ b) = trimStart t ++ b := by
      rw [trimStart, List.dropWhile_append, if_neg]
      · rfl
      · rw [List.isEmpty_iff]
        exact fun h => ht (List.dropWhile_eq_nil_iff.1 h)
    rw [hstart, trimEnd_blanks _ hb]

@[simp] theorem trim_trim (t : Text) : trim (trim t) = trim t := by
  obtain ⟨a, b, ht, ha, hb⟩ := exists_trim t
  exact (trim_blanks ha hb (trim t)).symm.trans (congrArg trim ht.symm)

theorem trimStart_eq_self (h : ∀ c ∈ t.head?, isBlank c = false) : trimStart t = t := by
  cases t with
  | nil => rfl
  | cons c t => exact List.dropWhile_cons_of_neg (by simp [h c rfl])

theorem trimEnd_eq_self (h : ∀ c ∈ t.getLast?, isBlank c = false) : trimEnd t = t := by
  have hend : trimStart t.reverse = t.reverse :=
    trimStart_eq_self (by rwa [List.head?_reverse])
  rw [trimEnd]
  exact (congrArg List.reverse hend).trans t.reverse_reverse

/-- A text without blanks at its ends is trimmed. -/
theorem trim_eq_self (hfirst : ∀ c ∈ t.head?, isBlank c = false)
    (hlast : ∀ c ∈ t.getLast?, isBlank c = false) : trim t = t := by
  rw [trim, trimStart_eq_self hfirst, trimEnd_eq_self hlast]

theorem length_trim_le (t : Text) : (trim t).length ≤ t.length := by
  obtain ⟨a, b, ht, -, -⟩ := exists_trim t
  have := congrArg List.length ht
  simp only [List.length_append] at this
  omega

/-- A trimmed text has no blanks at its ends. -/
theorem isBlank_ends_of_trim (h : trim t = t) :
    (∀ c ∈ t.head?, isBlank c = false) ∧ ∀ c ∈ t.getLast?, isBlank c = false := by
  -- Without the blank the text would be trimmed to the same text, which is longer.
  constructor
  · intro c hc
    rw [← Bool.not_eq_true]
    intro hblank
    obtain ⟨u, rfl⟩ := List.head?_eq_some_iff.1 hc
    have hshort := trim_blanks (a := [c]) (b := []) (by simpa using hblank) (by simp) u
    rw [List.append_nil, List.singleton_append, h] at hshort
    have := length_trim_le u
    rw [← hshort, List.length_cons] at this
    omega
  · intro c hc
    rw [← Bool.not_eq_true]
    intro hblank
    obtain ⟨u, rfl⟩ := List.getLast?_eq_some_iff.1 hc
    have hshort := trim_blanks (a := []) (b := [c]) (by simp) (by simpa using hblank) u
    rw [List.nil_append, h] at hshort
    have := length_trim_le u
    rw [← hshort, List.length_append, List.length_singleton] at this
    omega

/-- What stands between two trimmed texts does not matter for trimming. -/
theorem trim_between {s : Text} (hs : trim s = s) (hne : s ≠ []) (ht : trim t = t) (hne' : t ≠ [])
    (u : Text) : trim (s ++ u ++ t) = s ++ u ++ t := by
  apply trim_eq_self
  · intro c hc
    rw [List.append_assoc, List.head?_append, List.head?_eq_some_head hne, Option.some_or,
      ← List.head?_eq_some_head hne] at hc
    exact (isBlank_ends_of_trim hs).1 c hc
  · intro c hc
    rw [List.getLast?_append, List.getLast?_eq_some_getLast hne', Option.some_or,
      ← List.getLast?_eq_some_getLast hne'] at hc
    exact (isBlank_ends_of_trim ht).2 c hc

end

end MailMerge.Text
