/-!
# Binary floating point

A finite value is a sign and a whole number of units of 2⁻¹⁰⁷⁴, so that comparing, adding and
scaling are integer arithmetic. `Binary64.nearest` rounds a quotient to the nearest value with 53
significant bits, ties to even, and is the only place where a value is rounded.
-/

namespace MailMerge

/-- A number of the 64-bit binary format, as exact integers. -/
inductive Binary64 where
  /-- The result of an undefined operation; it equals nothing. -/
  | nan
  /-- A value beyond all finite ones. -/
  | infinity (negative : Bool)
  /-- A whole number of units of 2⁻¹⁰⁷⁴. Zero keeps its sign. -/
  | finite (negative : Bool) (units : Nat)
deriving DecidableEq, Repr

namespace Binary64

/-! ## Rounding -/

/-- The quotient rounded to the nearest integer, an exact half to the even one. -/
def divHalfEven (num den : Nat) : Nat :=
  let q := num / den
  let twice := 2 * (num % den)
  if twice < den then q
  else if den < twice then q + 1
  else if q % 2 = 0 then q else q + 1

/-- The number of units in one. -/
def one : Nat := Nat.pow 2 1074

/-- The first number of units that is too large for a finite value. -/
def limit : Nat := Nat.pow 2 2098

/-- The spacing, as a power of two, of the values around `units`. -/
def spacing (units : Nat) : Nat :=
  units.log2 + 1 - 53

/-- The units of the nearest value to `num / den`, which may be `limit` or more. -/
def nearestUnits (num den : Nat) : Nat :=
  let scaled := num * one
  let gap := Nat.pow 2 (spacing (scaled / den))
  divHalfEven scaled (den * gap) * gap

/-- The value nearest to `num / den`. -/
def nearest (negative : Bool) (num den : Nat) : Binary64 :=
  let units := nearestUnits num den
  if units < limit then .finite negative units else .infinity negative

/-! ## Integers -/

/-- The value nearest to an integer; none where that is not finite. -/
def ofInt? (n : Int) : Option Binary64 :=
  let units := nearestUnits n.natAbs 1
  if units < limit then some (.finite (n < 0) units) else none

/-- The value of a small natural number. -/
def ofNat (n : Nat) : Binary64 :=
  nearest false n 1

/-- The value is a whole number. -/
def isWhole : Binary64 → Bool
  | .finite _ units => units % one = 0
  | _ => false

/-- The whole part, without the fraction; zero for what is not finite. -/
def truncate : Binary64 → Int
  | .finite true units => -((units / one : Nat) : Int)
  | .finite false units => (units / one : Nat)
  | _ => 0

/-! ## Order -/

/-- The value in units with its sign. -/
def signedUnits (negative : Bool) (units : Nat) : Int :=
  if negative then -(units : Int) else units

/-- The order of two values; none where one is not a number. -/
def compare? : Binary64 → Binary64 → Option Ordering
  | .nan, _ => none
  | _, .nan => none
  | .infinity n, .infinity m => some (compare (if n then 0 else 1) (if m then 0 else 1 : Nat))
  | .infinity n, .finite .. => some (if n then .lt else .gt)
  | .finite .., .infinity m => some (if m then .gt else .lt)
  | .finite n a, .finite m b => some (compare (signedUnits n a) (signedUnits m b))

/-- The values are equal as numbers. -/
def equal (x y : Binary64) : Bool :=
  compare? x y == some .eq

/-- The value is exactly the integer. -/
def equalsInt (x : Binary64) (n : Int) : Bool :=
  match x with
  | .finite negative units => signedUnits negative units == n * (one : Int)
  | _ => false

/-- The value is not a number. -/
def isNaN : Binary64 → Bool
  | .nan => true
  | _ => false

/-- The value is zero, of either sign. -/
def isZero : Binary64 → Bool
  | .finite _ units => units == 0
  | _ => false

/-! ## Arithmetic -/

/-- The value with the other sign. -/
def negate : Binary64 → Binary64
  | .nan => .nan
  | .infinity n => .infinity !n
  | .finite n a => .finite (!n) a

/-- The value times `num / den`, rounded once. -/
def scale (x : Binary64) (num den : Nat) : Binary64 :=
  match x with
  | .nan => .nan
  | .infinity n => .infinity n
  | .finite n a => nearest n (a * num) (one * den)

/-- The sum of two finite values, rounded once; the sum with anything else is not a number. -/
def addFinite : Binary64 → Binary64 → Binary64
  | .finite n a, .finite m b =>
    let sum := signedUnits n a + signedUnits m b
    if sum = 0 then .finite (n && m) 0 else nearest (sum < 0) sum.natAbs one
  | _, _ => .nan

end Binary64
end MailMerge
