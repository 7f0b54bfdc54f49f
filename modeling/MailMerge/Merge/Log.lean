import MailMerge.Merge.Error
import MailMerge.Merge.Warning
import MailMerge.Value.Basic

/-!
# Steps of a merge

A step of a merge either fails or gives a result, warnings and requests for images. The logs of
steps in sequence are appended, so what a step reports does not depend on the steps before it.
-/

namespace MailMerge

/-- What steps report beside their results. -/
structure Log (ι : Type) where
  warnings : List Warning := []
  images : List ι := []

instance {ι : Type} : Append (Log ι) where
  append a b := ⟨a.warnings ++ b.warnings, a.images ++ b.images⟩

/-- A step with images of type `ι` and a result of type `α`. -/
def Merging (ι α : Type) := Except MergeError (α × Log ι)

namespace Merging

variable {ι κ α β : Type}

/-- A result with nothing to report. -/
def result (a : α) : Merging ι α :=
  Except.ok (a, {})

/-- A step, and another one that goes on from its result. -/
def andThen (x : Merging ι α) (f : α → Merging ι β) : Merging ι β :=
  match x with
  | Except.error e => Except.error e
  | Except.ok (a, log) =>
    match f a with
    | Except.error e => Except.error e
    | Except.ok (b, log') => Except.ok (b, log ++ log')

instance : Monad (Merging ι) where
  pure := result
  bind := andThen

/-! ## Laws -/

theorem Log.append_eq (a b : Log ι) :
    a ++ b = ⟨a.warnings ++ b.warnings, a.images ++ b.images⟩ := rfl

theorem Log.append_assoc (a b c : Log ι) : a ++ b ++ c = a ++ (b ++ c) := by
  simp only [Log.append_eq, List.append_assoc]

theorem Log.empty_append (a : Log ι) : ({} : Log ι) ++ a = a := rfl

theorem Log.append_empty (a : Log ι) : a ++ ({} : Log ι) = a := by
  simp only [Log.append_eq, List.append_nil]

theorem result_andThen (a : α) (f : α → Merging ι β) : (result a).andThen f = f a := by
  unfold result andThen
  cases h : f a with
  | error e => simp only [h]; rfl
  | ok p => simp only [h, Log.empty_append]; rfl

theorem andThen_result (x : Merging ι α) : x.andThen result = x := by
  unfold andThen result
  cases x with
  | error e => rfl
  | ok p => exact congrArg (fun log => Except.ok (p.1, log)) (Log.append_empty p.2)

theorem andThen_assoc {γ : Type} (x : Merging ι α) (f : α → Merging ι β) (g : β → Merging ι γ) :
    (x.andThen f).andThen g = x.andThen fun a => (f a).andThen g := by
  unfold andThen
  cases x with
  | error e => rfl
  | ok p =>
    obtain ⟨a, log⟩ := p
    dsimp only
    cases hf : f a with
    | error e => rfl
    | ok q =>
      obtain ⟨b, log'⟩ := q
      dsimp only
      cases hg : g b with
      | error e => rfl
      | ok r => simp only [Log.append_assoc]; rfl

instance : LawfulMonad (Merging ι) :=
  LawfulMonad.mk' (Merging ι) andThen_result result_andThen andThen_assoc

/-- The end of a merge. -/
def fail (e : MergeError) : Merging ι α :=
  Except.error e

/-- A step with a given log. -/
def report (warnings : List Warning) (images : List ι) (a : α) : Merging ι α :=
  Except.ok (a, ⟨warnings, images⟩)

/-- A warning. -/
def warn (w : Warning) : Merging ι Unit :=
  report [w] [] ()

/-- A computation that may meet a fault. -/
def ofFault (x : Except Fault α) : Merging ι α :=
  match x with
  | .ok a => result a
  | .error f => fail (.fault f)

/-- The step with its images handed over to a function of the result, which gives the images that
are reported instead. -/
def mapImages (x : Merging ι α) (f : α → List ι → List κ) : Merging κ α :=
  match x with
  | Except.error e => Except.error e
  | Except.ok (a, log) => Except.ok (a, ⟨log.warnings, f a log.images⟩)

end Merging
end MailMerge
