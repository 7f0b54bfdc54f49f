import MailMerge.Number.Binary64
import MailMerge.Text.Class

/-!
# Numerals

Reading numbers from text. Digits may be of any script; between two digits an underscore may
stand. A whole number longer than `maxDigits` digits is refused, in reading and in writing.
-/

namespace MailMerge

namespace Numeral

/-- The most digits of a whole number that is converted from or to text. -/
def maxDigits : Nat := 4300

/-- The number that a run of digit values stands for. -/
def ofDigits (digits : List Nat) : Nat :=
  digits.foldl (fun n d => n * 10 + d) 0

/-- A number is read back from its digits. -/
theorem ofDigits_ofNat (n : Nat) :
    ofDigits ((Text.ofNat n).filterMap Text.digitValue?) = n := by
  have hdigit : ∀ d < 10, Text.digitValue? d.digitChar = some d := by decide
  induction n using Nat.strongRecOn with
  | ind n ih =>
    rw [Text.ofNat, Nat.toDigits_eq_if (by decide)]
    by_cases hn : n < 10
    · rw [if_pos hn, List.filterMap_cons, hdigit n hn]
      exact Nat.zero_add n
    · have hi := ih (n / 10) (by omega)
      rw [Text.ofNat] at hi
      rw [if_neg hn, List.filterMap_append, List.filterMap_cons, hdigit _ (Nat.mod_lt n (by decide)),
        ofDigits, List.foldl_append, ← ofDigits, hi]
      show n / 10 * 10 + n % 10 = n
      omega

/-- The text starts with a digit. -/
def startsWithDigit (t : Text) : Bool :=
  t.head?.any Text.isDecimalDigit

/-- The leading digits and what follows; `inside` allows an underscore between two digits. -/
def takeDigitsFrom : (inside : Bool) → Text → List Nat × Text
  | _, [] => ([], [])
  | inside, c :: rest =>
    match Text.digitValue? c with
    | some d =>
      let (ds, after) := takeDigitsFrom true rest
      (d :: ds, after)
    | none =>
      if c = '_' ∧ inside ∧ startsWithDigit rest then takeDigitsFrom false rest
      else ([], c :: rest)

/-- The leading digits, with underscores between them, and what follows. -/
def takeDigits (t : Text) : List Nat × Text :=
  takeDigitsFrom false t

/-- An optional sign; true for minus. -/
def takeSign : Text → Bool × Text
  | '-' :: rest => (true, rest)
  | '+' :: rest => (false, rest)
  | t => (false, t)

/-- A blank that may stand around a numeral: any but the information separators. -/
def isMargin (c : Char) : Bool :=
  Text.isBlank c && !Text.inRanges [(0x1C, 0x1F)] c

/-- The text without the blanks that may stand around a numeral. -/
def trimMargin (t : Text) : Text :=
  ((t.dropWhile isMargin).reverse.dropWhile isMargin).reverse

/-- A whole number with an optional sign and blanks around it; none for any other text and for
too many digits. -/
def wholeNumber? (t : Text) : Option Int :=
  let (negative, t) := takeSign (trimMargin t)
  match takeDigits t with
  | ([], _) => none
  | (digits, []) =>
    if digits.length ≤ maxDigits then
      let n : Int := ofDigits digits
      some (if negative then -n else n)
    else none
  | (_, _ :: _) => none

/-- The exponent part of a numeral, zero where there is none. -/
def exponent? : Text → Option Int
  | [] => some 0
  | c :: rest =>
    if c = 'e' ∨ c = 'E' then
      let (negative, t) := takeSign rest
      match takeDigits t with
      | ([], _) => none
      | (digits, []) =>
        let n : Int := ofDigits digits
        some (if negative then -n else n)
      | (_, _ :: _) => none
    else none

/-- The value nearest to `mantissa * 10 ^ exponent`. -/
def nearestDecimal (negative : Bool) (mantissa : Nat) (digitCount : Nat) (exponent : Int) :
    Binary64 :=
  if mantissa = 0 then .finite negative 0
  else if 400 < digitCount + exponent then .infinity negative
  else if digitCount + exponent < -400 then .finite negative 0
  else if 0 ≤ exponent then .nearest negative (mantissa * Nat.pow 10 exponent.toNat) 1
  else .nearest negative mantissa (Nat.pow 10 (-exponent).toNat)

/-- The named values, in any case. -/
def named? (negative : Bool) (t : Text) : Option Binary64 :=
  let t := t.map Char.toLower
  if t = "inf".toList ∨ t = "infinity".toList then some (.infinity negative)
  else if t = "nan".toList then some .nan
  else none

/-- The number of significant digits of a run: those after its leading zeros. -/
def significant (digits : List Nat) : Nat :=
  (digits.dropWhile (· == 0)).length

/-- A decimal number: sign, digits with an optional point, optional exponent; or a named value. -/
def decimal? (t : Text) : Option Binary64 :=
  let (negative, t) := takeSign (trimMargin t)
  match named? negative t with
  | some x => some x
  | none =>
    let (whole, t) := takeDigits t
    let (fraction, t) :=
      match t with
      | '.' :: rest => takeDigits rest
      | t => ([], t)
    if whole.isEmpty && fraction.isEmpty then none
    else
      (exponent? t).map fun e =>
        let digits := whole ++ fraction
        nearestDecimal negative (ofDigits digits) (significant digits) (e - fraction.length)

end Numeral
end MailMerge
