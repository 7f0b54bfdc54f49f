import MailMerge.Merge.Basic
import MailMerge.Proofs.Conditional.Passes
import MailMerge.Proofs.Merge.Results

/-!
# Causes of errors

A step fails with an error. Steps in sequence fail as the first of them does that fails, so the error
of a merge can be followed to the step that it comes from. That a section has nothing to repeat over
comes of binding a section: neither conditionals nor fields fail in this way.

**`fails_bind_iff`**: steps in sequence fail if the first one does, or the second one after it.

**`exists_fails_of_rewriteOpen`**: rewriting open paragraphs fails only if rewriting one of them does.
-/

namespace MailMerge

namespace Merging

variable {ι κ α β : Type}

/-- The step ends with the error. -/
def Fails (x : Merging ι α) (e : MergeError) : Prop :=
  x = Except.error e

@[simp] theorem not_fails_pure (a : α) (e : MergeError) : ¬ (pure a : Merging ι α).Fails e :=
  fun h => nomatch h

@[simp] theorem not_fails_report (ws : List Warning) (images : List ι) (a : α) (e : MergeError) :
    ¬ (report ws images a).Fails e :=
  fun h => nomatch h

@[simp] theorem fails_fail_iff {e e' : MergeError} :
    (fail e : Merging ι α).Fails e' ↔ e = e' :=
  ⟨fun h => Except.error.inj h, fun h => h ▸ rfl⟩

theorem Gives.not_fails {x : Merging ι α} {a : α} (h : x.Gives a) (e : MergeError) : ¬ x.Fails e := by
  obtain ⟨log, rfl⟩ := h
  exact fun h => nomatch h

@[simp] theorem fails_mapImages_iff {x : Merging ι α} {f : α → List ι → List κ} {e : MergeError} :
    (x.mapImages f).Fails e ↔ x.Fails e := by
  cases x with
  | error e' =>
    constructor
    · exact fun h => congrArg Except.error (Except.error.inj h)
    · exact fun h => congrArg Except.error (Except.error.inj h)
  | ok r =>
    constructor
    · exact fun h => nomatch h
    · exact fun h => nomatch h

/-- **Steps in sequence fail if the first one does, or the second one after it.** -/
@[simp] theorem fails_bind_iff {x : Merging ι α} {f : α → Merging ι β} {e : MergeError} :
    (x >>= f).Fails e ↔ x.Fails e ∨ ∃ a, x.Gives a ∧ (f a).Fails e := by
  cases x with
  | error e' =>
    constructor
    · exact fun h => .inl (congrArg Except.error (Except.error.inj h))
    · rintro (h | ⟨a, ⟨log, h⟩, -⟩)
      · exact congrArg Except.error (Except.error.inj h)
      · cases h
  | ok r =>
    obtain ⟨a, log⟩ := r
    constructor
    · intro h
      refine .inr ⟨a, ⟨log, rfl⟩, ?_⟩
      change andThen (Except.ok (a, log)) f = _ at h
      simp only [andThen] at h
      cases hf : f a with
      | error e' =>
        rw [hf] at h
        exact congrArg Except.error (Except.error.inj h)
      | ok r =>
        rw [hf] at h
        cases h
    · rintro (h | ⟨a', ⟨log', h⟩, hf⟩)
      · cases h
      · obtain ⟨rfl, rfl⟩ := Prod.mk.inj (Except.ok.inj h)
        change andThen (Except.ok (a, log)) f = _
        simp only [andThen, show f a = Except.error e from hf]
        rfl

@[simp] theorem fails_map_iff {x : Merging ι α} {f : α → β} {e : MergeError} :
    (f <$> x).Fails e ↔ x.Fails e := by
  rw [← bind_pure_comp, fails_bind_iff]
  simp

/-- Steps for the items of a list fail at one of the items, and succeed at those before it. -/
theorem fails_mapM_iff {f : α → Merging ι β} {xs : List α} {e : MergeError} :
    (xs.mapM f).Fails e ↔
      ∃ before x after, xs = before ++ x :: after ∧ (∀ y ∈ before, ∃ b, (f y).Gives b) ∧
        (f x).Fails e := by
  induction xs with
  | nil => simp
  | cons x xs ih =>
    rw [List.mapM_cons]
    simp only [fails_bind_iff, not_fails_pure, ih]
    constructor
    · rintro (h | ⟨b, hb, ⟨before, y, after, rfl, hbefore, hy⟩ | ⟨_, _, h⟩⟩)
      · exact ⟨[], x, xs, rfl, by simp, h⟩
      · refine ⟨x :: before, y, after, rfl, ?_, hy⟩
        intro z hz
        rcases List.mem_cons.1 hz with rfl | hz
        · exact ⟨b, hb⟩
        · exact hbefore z hz
      · exact absurd h not_false
    · rintro ⟨before, y, after, he, hbefore, hy⟩
      cases before with
      | nil =>
        obtain ⟨rfl, rfl⟩ := List.cons.inj he
        exact .inl hy
      | cons z before =>
        obtain ⟨rfl, rfl⟩ := List.cons.inj he
        obtain ⟨b, hb⟩ := hbefore x List.mem_cons_self
        exact .inr ⟨b, hb, .inl ⟨before, y, after, rfl,
          fun z hz => hbefore z (List.mem_cons_of_mem x hz), hy⟩⟩

@[simp] theorem fails_under_iff {x : Merging PendingImage α} {i : Nat} {e : MergeError} :
    (x.under i).Fails e ↔ x.Fails e :=
  fails_mapImages_iff

@[simp] theorem fails_shifted_iff {x : Merging PendingImage α} {i : Nat} {e : MergeError} :
    (x.shifted i).Fails e ↔ x.Fails e :=
  fails_mapImages_iff

theorem fails_followedBy_iff {x y : Merging PendingImage (List Node)} {e : MergeError} :
    (x.followedBy y).Fails e ↔ x.Fails e ∨ (∃ first, x.Gives first) ∧ y.Fails e := by
  unfold followedBy
  simp

@[simp] theorem fails_ofFault_iff {x : Except Fault α} {e : MergeError} :
    (ofFault x : Merging ι α).Fails e ↔ ∃ f, x = .error f ∧ e = .fault f := by
  cases x with
  | ok a =>
    rw [ofFault_ok]
    simp
  | error f =>
    rw [ofFault, fails_fail_iff]
    constructor
    · exact fun h => ⟨f, rfl, h.symm⟩
    · rintro ⟨g, hg, rfl⟩
      rw [Except.error.inj hg]

end Merging

open Merging (Fails)

variable {settings : Settings} {c : Context} {label : Text} {lack : Lack}

/-! ## Nothing to repeat over -/

/-- Resolving conditionals binds no section. -/
theorem Conditional.not_fails_resolve {ι : Type} (fields : Condition.Fields) (t : Text) :
    ¬ (resolve (ι := ι) settings fields t).Fails (.missingSection label lack) := by
  obtain ⟨x, hx, -⟩ := resolve_eq (ι := ι) settings fields t
  rw [hx, Merging.fails_bind_iff]
  rintro (h | ⟨ws, -, h⟩)
  · simp at h
  · split at h
    · simp at h
    · simp at h

namespace Field

theorem not_fails_writeValue {ι : Type} (path : Text) (format : Option Text) (v : Value) :
    ¬ (writeValue settings path format v : Merging ι Text).Fails (.missingSection label lack) := by
  unfold writeValue
  split
  · simp
  · simp
  · simp [Merging.warn]

theorem not_fails_render {ι : Type} (spec : FieldSpec) :
    ¬ (render settings c spec : Merging ι Text).Fails (.missingSection label lack) := by
  unfold render
  rw [Merging.fails_bind_iff]
  rintro (h | ⟨v, -, h⟩)
  · simp at h
  · split at h
    · split at h
      · simp at h
      · simp at h
    · exact not_fails_writeValue _ _ _ h

/-- Filling in a field binds no section. -/
theorem not_fails_replace (withImages : Bool) (inner : Text) :
    ¬ (replace settings c withImages inner).Fails (.missingSection label lack) := by
  unfold replace
  dsimp only
  split
  · split
    · simp [imageRequest]
    · simp
  · split
    · simp
    · exact not_fails_render _
  · simp

theorem not_fails_substitute (withImages : Bool) (t : Text) :
    ¬ (substitute settings c withImages t).Fails (.missingSection label lack) := by
  unfold substitute
  dsimp only
  generalize (Marker.segments t).1 = segments
  induction segments with
  | nil => simp [replaceSegments]
  | cons s segments ih =>
    rw [replaceSegments]
    simp [not_fails_replace, ih]

end Field

/-! ## Open paragraphs -/

namespace Node

variable {f : Paragraph → Merging PendingImage Paragraph} {e : MergeError}

mutual

/-- **Rewriting open paragraphs fails only if rewriting one of them does.** -/
theorem exists_fails_of_rewriteOpenIn : ∀ (level : Level) (n : Node), (rewriteOpenIn f level n).Fails e →
      ∃ p, (f p).Fails e
  | .blocks, .paragraph p false, h => by
    simp only [rewriteOpenIn] at h
    exact ⟨p, by simpa using h⟩
  | .blocks, .table attributes rows false, h => by
    simp only [rewriteOpenIn] at h
    exact exists_fails_of_rewriteOpen .rows 0 rows (by simpa using h)
  | .rows, .row attributes cells false, h => by
    simp only [rewriteOpenIn] at h
    exact exists_fails_of_rewriteOpen .cells 0 cells (by simpa using h)
  | .cells, .cell attributes children rendered, h => by
    simp only [rewriteOpenIn] at h
    exact exists_fails_of_rewriteOpen .blocks 0 children (by simpa using h)
  | .blocks, .paragraph _ true, h | .blocks, .table _ _ true, h | .rows, .row _ _ true, h
  | .blocks, .row .., h | .blocks, .cell .., h | .blocks, .pageBreak _, h | .blocks, .verbatim _, h
  | .rows, .paragraph .., h | .rows, .table .., h | .rows, .cell .., h | .rows, .pageBreak _, h
  | .rows, .verbatim _, h | .cells, .paragraph .., h | .cells, .table .., h | .cells, .row .., h
  | .cells, .pageBreak _, h | .cells, .verbatim _, h => by
    simp [rewriteOpenIn] at h

theorem exists_fails_of_rewriteOpen : ∀ (level : Level) (i : Nat) (ns : List Node),
    (rewriteOpen f level i ns).Fails e → ∃ p, (f p).Fails e
  | level, i, [], h => by
    simp [rewriteOpen] at h
  | level, i, n :: ns, h => by
    rw [rewriteOpen] at h
    simp only [Merging.fails_bind_iff, Merging.fails_under_iff, Merging.not_fails_pure] at h
    rcases h with h | ⟨n', -, h | ⟨ns', -, h⟩⟩
    · exact exists_fails_of_rewriteOpenIn level n h
    · exact exists_fails_of_rewriteOpen level (i + 1) ns h
    · exact absurd h not_false

end

end Node
end MailMerge
