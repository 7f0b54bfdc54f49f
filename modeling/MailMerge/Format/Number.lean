import MailMerge.Format.Plain
import MailMerge.Number.Fixed

/-!
# Number formats

Amounts, numbers with groups of thousands, percentages and fixed places. What is no number stays
plain text.
-/

namespace MailMerge

namespace Value

/-- The value as a number to write, commas in a text left out; none for what is no number. -/
def amount? : Value → Except Fault (Option Binary64)
  | int n => (Binary64.ofInt? n).elim (.error .largeNumber) (.ok ∘ some)
  | float x => .ok (if x.isNaN then none else some x)
  | text t =>
    let digits := Text.without ',' (Text.trim t)
    .ok ((Numeral.decimal? digits).filter fun x => !x.isNaN)
  | _ => .ok none

/-- The value as a number written in some way, or else in plain text. -/
def withAmount (v : Value) (write : Binary64 → Text) : Except Fault Text := do
  match ← v.amount? with
  | some x => return write x
  | none => v.toPlain

end Value

/-! ## Amounts of money -/

/-- The currency symbols that an amount may bring with it. -/
def currencySymbols : Text := ['$', '£', '€', '¥', '₹']

/-- The magnitude of the value, and whether it is below zero after rounding to cents. -/
def cents : Binary64 → Binary64 × Bool
  | .finite negative units =>
    (.finite false units, negative && Binary64.roundPlaces units 2 != 0)
  | .infinity negative => (.infinity false, negative)
  | .nan => (.nan, false)

/-- An amount with a symbol, groups of thousands and two places. -/
def moneyText (symbol : Text) (x : Binary64) : Text :=
  let (magnitude, negative) := cents x
  (if negative then ['-'] else []) ++ symbol ++ magnitude.fixed true 2

/-- A text without a leading minus sign, and whether it had one. -/
def takeMinus : Text → Bool × Text
  | '-' :: rest => (true, rest)
  | t => (false, t)

/-- Digits and commas, then perhaps a point and digits; the last character is a digit. -/
def isAmountText (t : Text) : Bool :=
  let inner := t.dropWhile fun c => Text.isDecimalDigit c || c == ','
  match inner with
  | [] => t.getLast?.any Text.isDecimalDigit
  | '.' :: rest => rest != [] && rest.all Text.isDecimalDigit
  | _ => false

/-- An amount that brings its symbol: a minus sign may stand before or after the symbol. -/
def amountWithSymbol? (t : Text) : Option (Char × Binary64) :=
  let (before, t) := takeMinus (Text.trim t)
  match Text.trimStart t with
  | [] => none
  | symbol :: rest =>
    let (after, rest) := takeMinus (Text.trimStart rest)
    let digits := Text.trimStart rest
    if symbol ∈ currencySymbols ∧ isAmountText digits then
      (Numeral.decimal? (Text.without ',' digits)).map fun x =>
        (symbol, if before || after then x.negate else x)
    else
      none

/-- A value as an amount; one that brings a symbol keeps it. -/
def formatCurrency (symbol : Text) (v : Value) : Except Fault Text :=
  match v with
  | .text t =>
    match amountWithSymbol? t with
    | some (own, x) => .ok (moneyText [own] x)
    | none => v.withAmount (moneyText symbol)
  | v => v.withAmount (moneyText symbol)

/-! ## Other numbers -/

/-- A whole number with groups of thousands. -/
def groupedWhole (n : Int) : Text :=
  (if n < 0 then ['-'] else []) ++ groupThousands (Text.ofNat n.natAbs)

/-- The text without the trailing characters `c`. -/
def dropTrailing (c : Char) (t : Text) : Text :=
  (t.reverse.dropWhile (· == c)).reverse

/-- A number with groups of thousands and up to three places. -/
def numberText (x : Binary64) : Text :=
  if x.isWhole then groupedWhole x.truncate
  else dropTrailing '.' (dropTrailing '0' (x.fixed true 3))

/-- The value is a fraction of one, other than zero. -/
def isFraction : Binary64 → Bool
  | .finite _ units => units != 0 && units < Binary64.one
  | _ => false

/-- A percentage with one or two places. A fraction of one is taken for the share itself. -/
def percentText (x : Binary64) : Text :=
  let shown := (if isFraction x then x.scale 100 1 else x).fixed false 2
  (if shown.getLast? = some '0' then shown.dropLast else shown) ++ "%"

/-- More decimal places than this cannot be written. -/
def maxPlaces : Nat := 2147483647

/-- A value with as many places as a numeral says. -/
def formatPlaces (digits : Text) (v : Value) : Except Fault Text := do
  let places := Numeral.ofDigits (digits.filterMap Text.digitValue?)
  if Numeral.maxDigits < digits.length then throw .longNumeral
  match ← v.amount? with
  | none => v.toPlain
  | some x => if maxPlaces < places then throw .tooManyPlaces else return x.fixed false places

end MailMerge
