import MailMerge.Fault
import MailMerge.Number.Numeral
import MailMerge.Value.Basic

/-!
# Values from JSON

A JSON text is a sequence of tokens with spaces between them. Beside the numbers of the standard
there are names for the special ones. A text that is no token makes the token `bad`, and nothing
after it is looked at.

The tokens are read one after the other. What is read so far is the spot that comes next, and the
lists and records that are still open around it.
-/

namespace MailMerge.Json

/-- A token. -/
inductive Token where
  | openBrace
  | closeBrace
  | openBracket
  | closeBracket
  | comma
  | colon
  | string (t : Text)
  /-- A value without parts; a whole number may have too many digits. -/
  | scalar (v : Except Fault Value)
  | bad

/-- A space, a tab or a line end. -/
def isSpace (c : Char) : Bool :=
  c == ' ' || c == '\t' || c == '\n' || c == '\r'

/-! ## Strings -/

/-- The text up to the closing quote, escapes not resolved. Control characters end the search. -/
def rawString? : Text → Option Text
  | [] => none
  | '"' :: _ => some []
  | '\\' :: c :: rest => (rawString? rest).map fun t => '\\' :: c :: t
  | c :: rest => if c.toNat < 0x20 then none else (rawString? rest).map (c :: ·)

/-- The character of an escape of one letter. -/
def escaped? (c : Char) : Option Char :=
  [('"', '"'), ('\\', '\\'), ('/', '/'), ('b', '\x08'), ('f', '\x0c'), ('n', '\n'), ('r', '\r'),
    ('t', '\t')].lookup c

/-- The character codes of a string, of which escapes give the two halves of a pair alone. -/
def codes? : Text → Option (List Nat)
  | [] => some []
  | '\\' :: 'u' :: a :: b :: c :: d :: rest => do
    let n ← Text.numberIn? 16 [a, b, c, d]
    return n :: (← codes? rest)
  | '\\' :: c :: rest => do
    let c ← escaped? c
    return c.toNat :: (← codes? rest)
  | c :: rest => do return c.toNat :: (← codes? rest)

/-- The first half of a pair. -/
def isHigh (n : Nat) : Bool :=
  0xD800 ≤ n && n < 0xDC00

/-- The second half of a pair. -/
def isLow (n : Nat) : Bool :=
  0xDC00 ≤ n && n < 0xE000

/-- The character of a code; a half that stands alone becomes a replacement character. -/
def charOf (n : Nat) : Char :=
  if isHigh n || isLow n then '\uFFFD' else Char.ofNat n

/-- The characters of codes, of which pairs make one character. -/
def pairUp : List Nat → Text
  | [] => []
  | [n] => [charOf n]
  | high :: low :: rest =>
    if isHigh high && isLow low then
      Char.ofNat (0x10000 + (high - 0xD800) * 0x400 + (low - 0xDC00)) :: pairUp rest
    else charOf high :: pairUp (low :: rest)

/-- The string after an opening quote, and how many characters it takes with its closing quote. -/
def string? (t : Text) : Option (Text × Nat) := do
  let raw ← rawString? t
  let codes ← codes? raw
  return (pairUp codes, raw.length + 1)

/-! ## Numbers -/

/-- The fraction at the start of a text, with its point. -/
def fraction : Text → Text
  | '.' :: t =>
    let digits := t.takeWhile Char.isDigit
    if digits = [] then [] else '.' :: digits
  | _ => []

/-- The exponent at the start of a text, with its letter. -/
def exponent : Text → Text
  | [] => []
  | c :: t =>
    if c = 'e' ∨ c = 'E' then
      let sign := (t.take 1).filter fun c => c = '+' ∨ c = '-'
      let digits := (t.drop sign.length).takeWhile Char.isDigit
      if digits = [] then [] else c :: sign ++ digits
    else []

/-- The whole number of a numeral, if it has not too many digits. -/
def whole (negative : Bool) (digits : Text) : Except Fault Value :=
  if Numeral.maxDigits < digits.length then .error .longNumeral
  else
    let n : Int := Numeral.ofDigits (digits.filterMap Text.digitValue?)
    .ok (.int (if negative then -n else n))

/-- The number at the start of a text, and how many characters it takes. -/
def number? (t : Text) : Option (Except Fault Value × Nat) :=
  let sign := (t.take 1).filter (· = '-')
  let u := t.drop sign.length
  let digits := if u.head? = some '0' then ['0'] else u.takeWhile Char.isDigit
  if digits = [] then none
  else
    let u := u.drop digits.length
    let decimals := fraction u
    let power := exponent (u.drop decimals.length)
    let text := sign ++ digits ++ decimals ++ power
    if decimals = [] ∧ power = [] then some (whole (sign ≠ []) digits, text.length)
    else
      (Numeral.decimal? text).map fun x => (.ok (.float x), text.length)

/-! ## All tokens -/

/-- The named values. -/
def names : List (Text × Value) :=
  [ ("null", .null), ("true", .bool true), ("false", .bool false), ("NaN", .float .nan),
    ("Infinity", .float (.infinity false)), ("-Infinity", .float (.infinity true)) ]

/-- The named value at the start of a text, and how many characters it takes. -/
def name? (t : Text) : Option (Value × Nat) :=
  (names.find? fun e => Text.startsWith e.1 t).map fun e => (e.2, e.1.length)

/-- The token at the start of a text, and how many characters it takes. -/
def token? : Text → Option (Token × Nat)
  | [] => none
  | '\x7b' :: _ => some (.openBrace, 1)
  | '\x7d' :: _ => some (.closeBrace, 1)
  | '[' :: _ => some (.openBracket, 1)
  | ']' :: _ => some (.closeBracket, 1)
  | ',' :: _ => some (.comma, 1)
  | ':' :: _ => some (.colon, 1)
  | '"' :: rest => (string? rest).map fun (t, n) => (.string t, n + 1)
  | t =>
    match name? t with
    | some (v, n) => some (.scalar (.ok v), n)
    | none => (number? t).map fun (v, n) => (.scalar v, n)

/-- The tokens of a text. -/
def tokens (t : Text) : List Token :=
  match t with
  | [] => []
  | c :: rest =>
    if isSpace c then tokens rest
    else
      match token? (c :: rest) with
      | none => [.bad]
      | some (token, n) => token :: tokens (rest.drop (n - 1))
  termination_by t.length
  decreasing_by
    · simp
    · simp only [List.length_drop, List.length_cons]
      omega

/-! ## Values -/

/-- Why a text gives no value. -/
inductive Problem where
  /-- The text is no JSON. -/
  | malformed
  | fault (f : Fault)
deriving DecidableEq, Repr

/-- A list or record that is open. -/
inductive Frame where
  /-- The items before the current one, the last one first. -/
  | items (done : List Value)
  /-- The entries before the current one, and its name. -/
  | entries (done : Record) (name : Text)

/-- What may come next. -/
inductive Spot where
  | value
  /-- The first item of a list, or its end. -/
  | firstItem
  /-- The first name of a record, or its end. -/
  | firstName
  /-- The name of one more entry. -/
  | name (done : Record)
  /-- The colon after a name. -/
  | colon (done : Record) (name : Text)
  /-- What follows a value. -/
  | after (v : Value)

/-- The spot after a token where a value is expected. -/
def readValue (frames : List Frame) : Token → Except Problem (List Frame × Spot)
  | .openBrace => .ok (frames, .firstName)
  | .openBracket => .ok (frames, .firstItem)
  | .string t => .ok (frames, .after (.text t))
  | .scalar (.ok v) => .ok (frames, .after v)
  | .scalar (.error f) => .error (.fault f)
  | _ => .error .malformed

/-- The spot after one more token. -/
def step : List Frame × Spot → Token → Except Problem (List Frame × Spot)
  | (frames, .value), token => readValue frames token
  | (frames, .firstItem), .closeBracket => .ok (frames, .after (.list []))
  | (frames, .firstItem), token => readValue (.items [] :: frames) token
  | (frames, .firstName), .closeBrace => .ok (frames, .after (.record []))
  | (frames, .firstName), .string name => .ok (frames, .colon [] name)
  | (frames, .name done), .string name => .ok (frames, .colon done name)
  | (frames, .colon done name), .colon => .ok (.entries done name :: frames, .value)
  | (.items done :: frames, .after v), .comma => .ok (.items (v :: done) :: frames, .value)
  | (.items done :: frames, .after v), .closeBracket =>
    .ok (frames, .after (.list (v :: done).reverse))
  | (.entries done name :: frames, .after v), .comma => .ok (frames, .name (done.insert name v))
  | (.entries done name :: frames, .after v), .closeBrace =>
    .ok (frames, .after (.record (done.insert name v)))
  | _, _ => .error .malformed

/-- The value of a JSON text. -/
def read (t : Text) : Except Problem Value := do
  match ← (tokens t).foldlM step ([], .value) with
  | ([], .after v) => return v
  | _ => throw .malformed

end MailMerge.Json
