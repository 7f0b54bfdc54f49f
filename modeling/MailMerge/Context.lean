import MailMerge.Value.Path

/-!
# Contexts

What fields and conditions are evaluated against: the data in scope, the record in scope, and the
formats that paths have by default. A row context adds one record of a repeated section and its
position to an outer context.
-/

namespace MailMerge

/-- The data in scope at some place of a template. -/
structure Context where
  data : Record := []
  /-- The format of a path, or of any path that ends in the name. -/
  fieldTypes : List (Text × Text) := []
  /-- The record in scope: the primary one, inside a section the current one. -/
  record : Record := []
  /-- The position of the current record in its section, from 1. -/
  rowNumber : Option Int := none

namespace Context

/-- The value at the end of a path from the data in scope. -/
def resolve (c : Context) (path : Text) : Except Fault Value :=
  (Value.record c.data).resolve path

/-- A record as named values: anything else is a record of one value. -/
def rowRecord : Value → Record
  | .record entries => entries
  | v => [("value", v)]

/-- The context of one record of a section, at a position from 0. -/
def forRow (c : Context) (record : Value) (index : Int) : Context :=
  let record := rowRecord record
  let data := (Record.update c.data record).insert "ROW_NUM" (.int (index + 1))
  let data := data.insert "ROW_INDEX" (.int index)
  { data :=
      match c.rowNumber with
      | some n => data.insert "PARENT_ROW_NUM" (.int n)
      | none => data
    fieldTypes := c.fieldTypes
    record
    rowNumber := some (index + 1) }

/-- The last name of a path. -/
def lastName (path : Text) : Text :=
  (Text.splitOn '.' path).getLastD []

/-- The format of a path: that of the exact path, or else of its last name. -/
def fieldType (c : Context) (path : Text) : Option Text :=
  (c.fieldTypes.lookup path) <|> c.fieldTypes.lookup (lastName path)

/-- The context of a merge: the primary record's fields, today's date and the time, then system
variables, then named sources, where the later win. -/
def ofSources (record system sources : Record) (fieldTypes : List (Text × Text))
    (now : DateTime) : Context :=
  let clock : Record := [("TODAY", .date now.date), ("NOW", .dateTime now)]
  { data := (((Record.ofEntries record).update clock).update system).update sources
    fieldTypes
    record := Record.ofEntries record }

end Context
end MailMerge
