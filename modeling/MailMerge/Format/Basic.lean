import MailMerge.Format.Number
import MailMerge.Text.Case

/-!
# Formats

The catalogue of formats that a field may name, and the text of a value in each of them.
-/

namespace MailMerge

/-- A way to write a value. -/
inductive Format where
  | currency
  /-- As many places as the numeral says. -/
  | places (digits : Text)
  | number
  | percent
  | date
  | dateTime
  | time
  | phone
  | upper
  | lower
  | capitalize
  | yesNo
  | text
deriving DecidableEq, Repr

namespace Format

/-- The named formats. -/
def names : List (Text × Format) :=
  [("currency", currency), ("number", number), ("percent", percent), ("percentage", percent),
   ("date", date), ("datetime", dateTime), ("time", time), ("phone", phone),
   ("uppercase", upper), ("lowercase", lower), ("capitalize", capitalize), ("yesno", yesNo),
   ("text", text)]

/-- The format that a text names, in any case and with blanks around it. A numeral names a number
of places. -/
def ofName? (name : Text) : Option Format :=
  let name := Text.lower (Text.trim name)
  if name ≠ [] ∧ name.all Text.isDecimalDigit then some (places name) else names.lookup name

/-- A value that stands for a moment, written in some way, or else in plain text. -/
def withMoment (v : Value) (write : DateTime → Text) : Except Fault Text := do
  match ← v.moment? with
  | some m => return write m
  | none => v.toPlain

/-- Ten digits in the form of a phone number. -/
def phoneDigits (digits : Text) : Text :=
  "(" ++ digits.take 3 ++ ") " ++ (digits.drop 3).take 3 ++ "-" ++ digits.drop 6

/-- A text with ten digits, or eleven of which the first is a one, as a phone number; any other
text as it is. -/
def phoneText (t : Text) : Text :=
  let digits := t.filter Text.isDecimalDigit
  if digits.length = 11 ∧ digits.head? = some '1' then phoneDigits (digits.drop 1)
  else if digits.length = 10 then phoneDigits digits
  else t

/-- The first letter of each word in upper case. -/
def capitalizeText (t : Text) : Text :=
  Text.join " " ((Text.splitOn ' ' t).map fun word =>
    match word with
    | [] => []
    | c :: rest => Text.upperChar c ++ rest)

/-- The texts that say yes. -/
def affirmatives : List Text := ["true", "yes", "y", "1"]

/-- Whether a value says yes: a text by what it says, anything else if it is not zero or empty. -/
def saysYes : Value → Bool
  | .text t => affirmatives.any (· = Text.lower (Text.trim t))
  | .null => false
  | .unresolved => false
  | .bool b => b
  | .int n => n ≠ 0
  | .float x => !x.isZero
  | .list items => !items.isEmpty
  | .tuple items => !items.isEmpty
  | .record entries => !entries.isEmpty
  | .date _ => true
  | .dateTime _ => true
  | .time _ => true

/-- The value in a format. -/
def apply (symbol : Text) (v : Value) : Format → Except Fault Text
  | currency => formatCurrency symbol v
  | places digits => formatPlaces digits v
  | number => v.withAmount numberText
  | percent => v.withAmount percentText
  | date => withMoment v fun m => m.date.long
  | dateTime => withMoment v DateTime.long
  | time =>
    match v with
    | .time t => .ok t.clock.twelveHour
    | v => withMoment v fun m => m.clock.twelveHour
  | phone => phoneText <$> v.toPlain
  | upper => Text.upper <$> v.toPlain
  | lower => Text.lower <$> v.toPlain
  | capitalize => capitalizeText <$> v.toPlain
  | yesNo => .ok (yesOrNo (saysYes v))
  | text => v.toPlain

end Format

/-- Why a value has no text in a format. -/
inductive FormatError where
  | unknown (name : Text)
  | fault (f : Fault)
deriving DecidableEq

/-- The text of a value in the format that a text names; plain text where it names none. -/
def Value.format (symbol : Text) (v : Value) (name : Option Text) : Except FormatError Text :=
  match name.getD [] with
  | [] => v.toPlain.mapError .fault
  | c :: rest =>
    match Format.ofName? (c :: rest) with
    | some f => (f.apply symbol v).mapError .fault
    | none => .error (.unknown (c :: rest))

/-- The message that a format is not known. -/
def unknownFormatMessage (name : Text) : Text :=
  "Unknown format '" ++ name ++ "'"

end MailMerge
