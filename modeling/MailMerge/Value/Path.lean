import MailMerge.Fault
import MailMerge.Number.Numeral
import MailMerge.Value.Basic

/-!
# Paths into values

A path is a row of steps between points. A step into a record is a name; a step into a list or
tuple is an index in digits. Where a step leads nowhere, so does every path that goes on from it.

**`resolve_append`**: a longer path is resolved from where a shorter one leads.
-/

namespace MailMerge.Value

/-- The index that a step of digits stands for. -/
def index? (name : Text) : Except Fault Nat :=
  match name.mapM Text.digitValue? with
  | none => .error .oddIndex
  | some digits =>
    if digits.length ≤ Numeral.maxDigits then .ok (Numeral.ofDigits digits)
    else .error .longNumeral

/-- The item that a step names, if it is made of digits. -/
def itemAt (items : List Value) (name : Text) : Except Fault Value :=
  if name ≠ [] ∧ name.all Text.isAnyDigit then do
    return items.getD (← index? name) unresolved
  else
    .ok unresolved

/-- One step from a value. -/
def step : Value → Text → Except Fault Value
  | record entries, name => .ok ((entries.lookup name).getD unresolved)
  | list items, name => itemAt items name
  | tuple items, name => itemAt items name
  | _, _ => .ok unresolved

/-- The value at the end of a path; the empty path leads nowhere. -/
def resolve (v : Value) (path : Text) : Except Fault Value :=
  if path = [] then .ok unresolved else (Text.splitOn '.' path).foldlM step v

/-- The value at the end of a path into a record; from any other value no path leads anywhere. -/
def field (v : Value) (path : Text) : Except Fault Value :=
  match v with
  | record _ => v.resolve path
  | _ => .ok unresolved

end MailMerge.Value

namespace MailMerge.Text

theorem splitOn_ne_nil (sep : Char) (t : Text) : splitOn sep t ≠ [] := by
  cases t with
  | nil => simp [splitOn]
  | cons c t =>
    simp only [splitOn]
    split
    · simp
    · split <;> simp

theorem splitOn_of_notMem {sep : Char} {t : Text} (h : sep ∉ t) : splitOn sep t = [t] := by
  induction t with
  | nil => rfl
  | cons c t ih =>
    rw [List.mem_cons, not_or] at h
    rw [splitOn, if_neg (Ne.symm h.1), ih h.2]

/-- A separator between two texts divides their pieces. -/
theorem splitOn_append (sep : Char) (s t : Text) :
    splitOn sep (s ++ sep :: t) = splitOn sep s ++ splitOn sep t := by
  induction s with
  | nil => simp [splitOn]
  | cons c s ih =>
    by_cases h : c = sep
    · simp [splitOn, h, ih]
    · simp only [List.cons_append, splitOn, if_neg h, ih]
      cases hs : splitOn sep s with
      | nil => exact absurd hs (splitOn_ne_nil sep s)
      | cons piece pieces => simp

end MailMerge.Text

namespace MailMerge.Value

theorem resolve_append (v : Value) {p q : Text} (hp : p ≠ []) (hq : q ≠ []) :
    v.resolve (p ++ '.' :: q) = v.resolve p >>= fun w => w.resolve q := by
  have h : p ++ '.' :: q ≠ [] := by simp
  simp only [resolve, if_neg hp, if_neg hq, if_neg h, Text.splitOn_append, List.foldlM_append]

end MailMerge.Value
