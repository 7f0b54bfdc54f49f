import MailMerge.Number.Binary64
import MailMerge.Text.Basic

/-!
# The shortest decimal of a binary value

`shortest` finds, for a positive value, the fewest decimal digits that read back to it: on grids of
1, 2, … 17 digits it tests the two neighbours of the value, and takes the first grid with a hit
and of two hits the nearer, on a tie the even one. `Binary64.toText` lays the digits out:
positionally from 10⁻⁴ up to 10¹⁶, with a point and at least one digit after it, and otherwise
with a signed exponent of at least two digits.
-/

namespace MailMerge.Binary64

/-- `digits * 10 ^ exponent`. -/
structure Decimal where
  digits : Nat
  exponent : Int
deriving DecidableEq, Repr

/-- The numerator and denominator, in units, of a power of ten. -/
def tenPower (exponent : Int) : Nat × Nat :=
  (Nat.pow 10 exponent.toNat * one, Nat.pow 10 (-exponent).toNat)

/-- The decimal lies among the reals that round to `units`. The reals up to halfway to each
neighbour do, and the halfway points exactly where the significand is even. -/
def readsBack (units : Nat) (d : Decimal) : Bool :=
  let gap := Nat.pow 2 (spacing units)
  let below := if 0 < spacing units && units == Nat.pow 2 52 * gap then gap else 2 * gap
  let even := units / gap % 2 == 0
  let (num, den) := tenPower d.exponent
  let point := 4 * d.digits * num
  let low := (4 * units - below) * den
  let high := (4 * units + 2 * gap) * den
  if even then low ≤ point && point ≤ high else low < point && point < high

/-- The least `k` with a value below `10 ^ k`. -/
def magnitude (units : Nat) : Int :=
  let fits (k : Int) : Bool :=
    let (num, den) := tenPower k
    units * den < num
  let estimate : Int := ((units.log2 : Int) - 1074) * 30103 / 100000 - 1
  if fits estimate then estimate
  else if fits (estimate + 1) then estimate + 1
  else if fits (estimate + 2) then estimate + 2
  else estimate + 3

/-- The neighbour of the value on the grid `10 ^ exponent` that reads back, if one does: of two
the nearer, on a tie the even one. -/
def onGrid? (units : Nat) (exponent : Int) : Option Decimal :=
  let (num, den) := tenPower exponent
  let floor := units * den / num
  let lower : Decimal := ⟨floor, exponent⟩
  let upper : Decimal := ⟨floor + 1, exponent⟩
  match readsBack units lower && floor != 0, readsBack units upper with
  | true, true =>
    match compare (2 * units * den) ((2 * floor + 1) * num) with
    | .lt => some lower
    | .gt => some upper
    | .eq => some (if floor % 2 = 0 then lower else upper)
  | true, false => some lower
  | false, true => some upper
  | false, false => none

/-- The digits without trailing zeros; `fuel` bounds their number. -/
def Decimal.stripZeros (d : Decimal) : (fuel : Nat) → Decimal
  | 0 => d
  | fuel + 1 =>
    if d.digits ≠ 0 ∧ d.digits % 10 = 0 then
      Decimal.stripZeros ⟨d.digits / 10, d.exponent + 1⟩ fuel
    else d

/-- The decimal with the fewest digits that reads back to a positive value. -/
def shortest (units : Nat) : Decimal :=
  let top := magnitude units
  let found := (List.range 17).findSome? fun (n : Nat) => onGrid? units (top - (n + 1))
  let decimal := found.getD ⟨units * Nat.pow 5 1074, -1074⟩
  decimal.stripZeros (Nat.toDigits 10 decimal.digits).length

/-- The digits with the point where the exponent puts it. -/
def layOut (d : Decimal) : Text :=
  let digits := Text.ofNat d.digits
  let leading : Int := digits.length + d.exponent - 1
  if -4 ≤ leading ∧ leading < 16 then
    if 0 ≤ d.exponent then
      digits ++ List.replicate d.exponent.toNat '0' ++ ".0"
    else if 0 ≤ leading then
      digits.take (leading.toNat + 1) ++ "." ++ digits.drop (leading.toNat + 1)
    else
      "0." ++ List.replicate (-leading - 1).toNat '0' ++ digits
  else
    let fraction := if digits.length ≤ 1 then digits else digits.take 1 ++ "." ++ digits.drop 1
    let sign : Text := if leading < 0 then "e-" else "e+"
    fraction ++ sign ++ Text.padded 2 leading.natAbs

/-- The text of a value: the fewest digits that read back to it. -/
def toText : Binary64 → Text
  | .nan => "nan"
  | .infinity true => "-inf"
  | .infinity false => "inf"
  | .finite negative units =>
    (if negative then ['-'] else [])
      ++ if units = 0 then ['0', '.', '0'] else layOut (shortest units)

end MailMerge.Binary64
