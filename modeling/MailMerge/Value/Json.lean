import MailMerge.Value.Print

/-!
# Values as indented JSON

A record or list over several lines, each level two blanks further in. Lists and tuples are
arrays; what JSON does not know is written as a string of its plain text; the special numbers
have names.
-/

namespace MailMerge

namespace Text

/-- A character inside a JSON string. -/
def escapeJson (c : Char) : Text :=
  if c = '"' then "\\\""
  else if c = '\\' then "\\\\"
  else if c = '\n' then "\\n"
  else if c = '\r' then "\\r"
  else if c = '\t' then "\\t"
  else if c = '\x0c' then "\\f"
  else if c = '\x08' then "\\b"
  else if c.toNat < 0x20 then "\\u" ++ hex 4 c.toNat
  else [c]

/-- The text as a JSON string. -/
def jsonString (t : Text) : Text :=
  '"' :: t.flatMap escapeJson ++ ['"']

end Text

/-- The number in JSON, with names for the values that are not finite. -/
def Binary64.toJson : Binary64 → Text
  | .nan => "NaN"
  | .infinity true => "-Infinity"
  | .infinity false => "Infinity"
  | x => x.toText

/-- A line end with the indentation of a level. -/
def indentation (level : Nat) : Text :=
  '\n' :: List.replicate (2 * level) ' '

/-- The items of an array or object, each on a line of its own at the next level. -/
def bracketed (opening closing : Char) (level : Nat) (items : List Text) : Text :=
  if items.isEmpty then [opening, closing]
  else
    opening :: indentation (level + 1) ++ Text.join (',' :: indentation (level + 1)) items
      ++ indentation level ++ [closing]

namespace Value

mutual

/-- The value in JSON, where its first line stands at a level. -/
def toJson (level : Nat) : Value → Except Fault Text
  | null => .ok "null"
  | bool b => .ok (if b then "true" else "false")
  | int n => wholeText n
  | float x => .ok x.toJson
  | text t => .ok (Text.jsonString t)
  | list items => do return bracketed '[' ']' level (← jsonItems (level + 1) items)
  | tuple items => do return bracketed '[' ']' level (← jsonItems (level + 1) items)
  | record entries => do return bracketed '{' '}' level (← jsonEntries (level + 1) entries)
  | unresolved => .ok (Text.jsonString "UNRESOLVED")
  | date d => .ok (Text.jsonString d.toIso)
  | dateTime m => .ok (Text.jsonString (m.toIso ' '))
  | time t => .ok (Text.jsonString t.toIso)

/-- The items of an array, in JSON. -/
def jsonItems (level : Nat) : List Value → Except Fault (List Text)
  | [] => .ok []
  | v :: vs => do
    let t ← toJson level v
    let ts ← jsonItems level vs
    return t :: ts

/-- The members of an object, in JSON. -/
def jsonEntries (level : Nat) : List (Text × Value) → Except Fault (List Text)
  | [] => .ok []
  | (name, v) :: rest => do
    let t ← toJson level v
    let ts ← jsonEntries level rest
    return (Text.jsonString name ++ ": " ++ t) :: ts

end

end Value
end MailMerge
