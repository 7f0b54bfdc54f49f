import MailMerge.Calendar.Basic
import MailMerge.Number.Binary64
import MailMerge.Text.Basic

/-!
# Values

The data that a template is merged with: what a decoded record holds, and dates and times beside
it. A path that leads nowhere gives the value `unresolved`.
-/

namespace MailMerge

/-- A value of a record, a variable or a named source. -/
inductive Value where
  | null
  /-- There is no value at this place. -/
  | unresolved
  | bool (b : Bool)
  | int (n : Int)
  | float (x : Binary64)
  | text (t : Text)
  | date (d : Date)
  | dateTime (m : DateTime)
  | time (t : TimeOfDay)
  | list (items : List Value)
  | tuple (items : List Value)
  /-- Named values in the order in which the names came in; no name comes twice. -/
  | record (entries : List (Text × Value))
deriving Inhabited

/-- Named values in the order in which the names came in. -/
abbrev Record := List (Text × Value)

namespace Record

/-- The value under a name. -/
def get? (r : Record) (name : Text) : Option Value :=
  r.lookup name

/-- The record with a value under a name: in its old place if the name is known, else at the end. -/
def insert (r : Record) (name : Text) (v : Value) : Record :=
  match r with
  | [] => [(name, v)]
  | (n, w) :: rest => if n = name then (n, v) :: rest else (n, w) :: insert rest name v

/-- The record with the entries of another one added, which win. -/
def update (r entries : Record) : Record :=
  entries.foldl (fun r e => r.insert e.1 e.2) r

/-- The record of a list of entries, of which the later win. -/
def ofEntries (entries : Record) : Record :=
  update [] entries

end Record

namespace Value

/-- The name of the kind of value, for messages. -/
def kindName : Value → String
  | null => "NoneType"
  | unresolved => "_Unresolved"
  | bool _ => "bool"
  | int _ => "int"
  | float _ => "float"
  | text _ => "str"
  | date _ => "date"
  | dateTime _ => "datetime"
  | time _ => "time"
  | list _ => "list"
  | tuple _ => "tuple"
  | record _ => "dict"

/-- There is no value at this place, or it is empty. -/
def isMissing : Value → Bool
  | null => true
  | unresolved => true
  | _ => false

/-- The items of a list or tuple. -/
def items? : Value → Option (List Value)
  | list items => some items
  | tuple items => some items
  | _ => none

end Value
end MailMerge
