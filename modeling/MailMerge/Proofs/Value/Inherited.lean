import MailMerge.Value.Path

/-!
# What a value passes on to its parts

A property that holds of all parts of a value with it, and of the absent value, holds wherever a path
leads from the value.

**`Inherited.yields_resolve`**: the value at the end of a path has every inherited property of the value
that the path starts from.
-/

namespace MailMerge

/-! ## Results of computations that may fail -/

/-- The result, if there is one, has the property. -/
def Yields {ε α : Type} (P : α → Prop) (x : Except ε α) : Prop :=
  ∀ a, x = .ok a → P a

namespace Yields

variable {ε α β : Type} {P : α → Prop} {Q : β → Prop} {x : Except ε α}

theorem pure {a : α} (h : P a) : Yields P (Pure.pure a : Except ε α) := by
  intro b hb
  obtain rfl := Except.ok.inj hb
  exact h

theorem error (e : ε) : Yields P (.error e : Except ε α) := nofun

theorem bind {f : α → Except ε β} (h : Yields P x) (hf : ∀ a, P a → Yields Q (f a)) :
    Yields Q (x >>= f) := by
  cases x with
  | error e => exact nofun
  | ok a => exact hf a (h a rfl)

theorem map {f : α → β} (h : Yields P x) (hf : ∀ a, P a → Q (f a)) : Yields Q (f <$> x) := by
  cases x with
  | error e => exact nofun
  | ok a => exact Yields.pure (hf a (h a rfl))

end Yields

namespace Value

/-! ## Paths -/

/-- The property holds of the absent value, and with a value of each of its parts. -/
structure Inherited (P : Value → Prop) : Prop where
  unresolved : P unresolved
  item : ∀ {v : Value} {items : List Value}, P v → v.items? = some items → ∀ w ∈ items, P w
  entry : ∀ {entries : List (Text × Value)}, P (record entries) → ∀ e ∈ entries, P e.2

variable {P : Value → Prop} {v : Value}

theorem Inherited.yields_itemAt (hP : Inherited P) {items : List Value} (h : ∀ w ∈ items, P w)
    (name : Text) : Yields P (itemAt items name) := by
  unfold itemAt
  split
  · refine Yields.bind (P := fun _ => True) (fun _ _ => trivial) fun i _ => Yields.pure ?_
    rw [List.getD_eq_getElem?_getD]
    cases hi : items[i]? with
    | none => exact hP.unresolved
    | some w => exact h w (List.mem_of_getElem? hi)
  · exact Yields.pure hP.unresolved

theorem Inherited.yields_step (hP : Inherited P) (h : P v) (name : Text) : Yields P (v.step name) := by
  cases v with
  | list items | tuple items => exact hP.yields_itemAt (hP.item h rfl) name
  | record entries =>
    refine Yields.pure ?_
    cases hl : entries.lookup name with
    | none => exact hP.unresolved
    | some w =>
      obtain ⟨before, after, rfl, -⟩ := List.lookup_eq_some_iff.1 hl
      exact hP.entry h (name, w) (by simp)
  | _ => exact Yields.pure hP.unresolved

/-- **Wherever a path leads, it finds what its start passes on.** -/
theorem Inherited.yields_resolve (hP : Inherited P) (h : P v) (path : Text) : Yields P (v.resolve path) := by
  unfold resolve
  split
  · exact Yields.pure hP.unresolved
  · generalize Text.splitOn '.' path = names
    induction names generalizing v with
    | nil => exact Yields.pure h
    | cons name names ih =>
      rw [List.foldlM_cons]
      exact (hP.yields_step h name).bind fun w hw => ih hw

theorem Inherited.yields_field (hP : Inherited P) (h : P v) (path : Text) : Yields P (v.field path) := by
  cases v with
  | record entries => exact hP.yields_resolve h path
  | _ => exact Yields.pure hP.unresolved

end Value
end MailMerge
