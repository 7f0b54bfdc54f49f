import MailMerge.Fault
import MailMerge.Number.Numeral
import MailMerge.Number.Shortest
import MailMerge.Text.Case
import MailMerge.Text.WordChar
import MailMerge.Value.Equality

/-!
# Tokens of conditions

A condition is cut into parentheses, comparison signs, keywords in any case, numbers, quoted
texts and field names. Blanks separate tokens and mean nothing else.
-/

namespace MailMerge

/-- A comparison of two operands. -/
inductive Comparison where
  | equal
  | unequal
  | greater
  | less
  | greaterOrEqual
  | lessOrEqual
deriving DecidableEq, Repr

/-- A test of two texts. -/
inductive TextTest where
  | contains
  | startsWith
  | endsWith
  | equalCaseless
deriving DecidableEq, Repr

namespace Condition

/-- A token of a condition. -/
inductive Token where
  | openParen
  | closeParen
  | comparison (op : Comparison)
  | textTest (op : TextTest)
  | and
  | or
  | not
  | isBlank
  | bool (b : Bool)
  | null
  | number (n : Number)
  | string (t : Text)
  | name (path : Text)
deriving DecidableEq

/-- A token with the offset at which it starts. -/
structure Located where
  token : Token
  position : Nat
deriving DecidableEq

/-- The tokens of a condition, and its length. -/
structure Tokens where
  tokens : List Located
  stop : Nat
deriving DecidableEq

end Condition

/-- The sign of the comparison. -/
def Comparison.sign : Comparison → String
  | equal => "=="
  | unequal => "!="
  | greater => ">"
  | less => "<"
  | greaterOrEqual => ">="
  | lessOrEqual => "<="

/-- The keyword of the test. -/
def TextTest.keyword : TextTest → String
  | contains => "CONTAINS"
  | startsWith => "STARTSWITH"
  | endsWith => "ENDSWITH"
  | equalCaseless => "IEQUALS"

namespace Condition

/-- The token as messages show it: texts without their quotes, keywords in capitals. -/
def Token.toText : Token → Text
  | openParen => "("
  | closeParen => ")"
  | comparison op => op.sign
  | textTest op => op.keyword
  | and => "AND"
  | or => "OR"
  | not => "NOT"
  | isBlank => "ISBLANK"
  | bool b => if b then "True" else "False"
  | null => "None"
  | number (.whole n) => Text.ofInt n
  | number (.float x) => x.toText
  | string t => t
  | name path => path

/-- The keywords and their tokens. -/
def keywords : List (Text × Token) :=
  [("AND", .and), ("OR", .or), ("NOT", .not), ("CONTAINS", .textTest .contains),
   ("STARTSWITH", .textTest .startsWith), ("ENDSWITH", .textTest .endsWith),
   ("IEQUALS", .textTest .equalCaseless), ("ISBLANK", .isBlank), ("TRUE", .bool true),
   ("FALSE", .bool false), ("NULL", .null)]

/-- The token of a word: a keyword in any case, or else a field name. -/
def Token.ofWord (word : Text) : Token :=
  (keywords.lookup (Text.upper word)).getD (.name word)

/-! ## Words -/

/-- A character that a name starts with. -/
def isNameStart (c : Char) : Bool :=
  c.isAlpha || c == '_' || c == '$'

/-- A character that a name goes on with. -/
def isNameChar (c : Char) : Bool :=
  Text.isWordChar c || c == '$'

/-- The rest of a word and what follows it. A point belongs to the word if a name goes on
after it. -/
def takeWord : Text → Text × Text
  | [] => ([], [])
  | c :: rest =>
    if isNameChar c || (c == '.' && rest.head?.any isNameChar) then
      let (word, after) := takeWord rest
      (c :: word, after)
    else
      ([], c :: rest)

theorem takeWord_append (t : Text) : (takeWord t).1 ++ (takeWord t).2 = t := by
  induction t with
  | nil => rfl
  | cons c t ih =>
    unfold takeWord
    split
    · simpa using ih
    · rfl

/-! ## Numbers -/

/-- The digits after a point, if there are any, and what follows them. -/
def takeFraction : Text → Text × Text
  | '.' :: rest =>
    if rest.head?.any Text.isDecimalDigit then
      (rest.takeWhile Text.isDecimalDigit, rest.dropWhile Text.isDecimalDigit)
    else
      ([], '.' :: rest)
  | t => ([], t)

/-- The values of digits. -/
def digitValues (digits : Text) : List Nat :=
  digits.filterMap Text.digitValue?

/-- The number that the digits before and after a point make. -/
def numberOf (negative : Bool) (whole fraction : Text) : Except Fault Number :=
  if fraction.isEmpty then
    let n : Int := Numeral.ofDigits (digitValues whole)
    if whole.length ≤ Numeral.maxDigits then .ok (.whole (if negative then -n else n))
    else .error .longNumeral
  else
    let digits := digitValues (whole ++ fraction)
    .ok (.float (Numeral.nearestDecimal negative (Numeral.ofDigits digits)
      (Numeral.significant digits) (-fraction.length)))

/-- A number without its sign, and what follows it; no word character or point may. -/
def unsigned? (negative : Bool) (t : Text) : Option (Except Fault Number × Text) :=
  let whole := t.takeWhile Text.isDecimalDigit
  let (fraction, t) := takeFraction (t.dropWhile Text.isDecimalDigit)
  if (whole.isEmpty && fraction.isEmpty) || t.head?.any (fun c => Text.isWordChar c || c == '.')
  then none
  else some (numberOf negative whole fraction, t)

/-- A number, and what follows it. -/
def number? : Text → Option (Except Fault Number × Text)
  | '-' :: t => unsigned? true t
  | t => unsigned? false t

/-! ## Quoted texts -/

/-- The text up to the closing quote and what follows the quote. A backslash makes the next
character, unless that is a newline, stand for itself. -/
def quoted? (quote : Char) : Text → Option (Text × Text)
  | [] => none
  | [c] => if c = quote then some ([], []) else none
  | c :: d :: rest =>
    if c = quote then some ([], d :: rest)
    else if c = '\\' then
      if d = '\n' then none else (quoted? quote rest).map fun (t, after) => (d :: t, after)
    else (quoted? quote (d :: rest)).map fun (t, after) => (c :: t, after)

end Condition
end MailMerge
