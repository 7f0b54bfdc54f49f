import MailMerge.Number.Binary64
import MailMerge.Text.Basic

/-!
# Numbers with a fixed number of places

A value rounded to a number of decimal places, the exact half going to the even neighbour, and the
grouping of an integer's digits by thousands.
-/

namespace MailMerge

/-- A comma before each group of three digits, counted from the right; `digits` is reversed. -/
def groupReversed : Text → Text
  | a :: b :: c :: d :: rest => a :: b :: c :: ',' :: groupReversed (d :: rest)
  | short => short

/-- The digits with a comma before each group of three, counted from the right. -/
def groupThousands (digits : Text) : Text :=
  (groupReversed digits.reverse).reverse

namespace Binary64

/-- The magnitude in units of `10 ^ -places`, rounded half to even. -/
def roundPlaces (units places : Nat) : Nat :=
  divHalfEven (units * Nat.pow 10 places) one

/-- A number of units of `10 ^ -places` with its point, its whole part grouped if asked for. -/
def placeText (grouped : Bool) (places scaled : Nat) : Text :=
  let digits := Text.padded (places + 1) scaled
  let whole := digits.take (digits.length - places)
  let shown := if grouped then groupThousands whole else whole
  if places = 0 then shown else shown ++ "." ++ digits.drop (digits.length - places)

/-- The value with a number of places. A sign stays also where the digits are all zero. -/
def fixed (grouped : Bool) (places : Nat) : Binary64 → Text
  | .nan => "nan"
  | .infinity true => "-inf"
  | .infinity false => "inf"
  | .finite negative units =>
    (if negative then ['-'] else []) ++ placeText grouped places (roundPlaces units places)

end Binary64
end MailMerge
