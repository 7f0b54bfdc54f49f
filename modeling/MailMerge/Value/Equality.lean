import MailMerge.Value.Basic

/-!
# Equality of values

Two values are equal if they are of one kind and the same. Truth values and numbers are one kind,
compared exactly; records are compared without regard to order; a moment equals no date.
-/

namespace MailMerge

/-- A number, kept exact. -/
inductive Number where
  | whole (n : Int)
  | float (x : Binary64)
deriving DecidableEq

/-- Two numbers are exactly equal. -/
def Number.equal : Number → Number → Bool
  | .whole n, .whole m => n == m
  | .whole n, .float x => x.equalsInt n
  | .float x, .whole n => x.equalsInt n
  | .float x, .float y => x.equal y

namespace Value

/-- The value as a number: a truth value counts as one or zero. -/
def number? : Value → Option Number
  | bool b => some (.whole (if b then 1 else 0))
  | int n => some (.whole n)
  | float x => some (.float x)
  | _ => none

mutual

/-- The values are equal. -/
def equal : Value → Value → Bool
  | null, null => true
  | unresolved, unresolved => true
  | text s, text t => s == t
  | date d, date e => d == e
  | dateTime m, dateTime n => m.same n
  | time s, time t => s.same t
  | list xs, list ys => equalItems xs ys
  | tuple xs, tuple ys => equalItems xs ys
  | record xs, record ys => xs.length == ys.length && equalEntries xs ys
  | bool b, w => w.number?.any (Number.equal (.whole (if b then 1 else 0)))
  | int n, w => w.number?.any (Number.equal (.whole n))
  | float x, w => w.number?.any (Number.equal (.float x))
  | _, _ => false

/-- The items are equal one by one. -/
def equalItems : List Value → List Value → Bool
  | [], [] => true
  | x :: xs, y :: ys => equal x y && equalItems xs ys
  | _, _ => false

/-- Each entry has an equal value under its name in the other record. -/
def equalEntries : List (Text × Value) → List (Text × Value) → Bool
  | [], _ => true
  | (name, x) :: xs, ys => (ys.lookup name).any (equal x) && equalEntries xs ys

end

end Value
end MailMerge
