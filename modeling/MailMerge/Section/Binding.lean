import MailMerge.Context
import MailMerge.Marker.Basic
import MailMerge.Merge.Log
import MailMerge.Section.Closer
import MailMerge.Settings

/-!
# What a section repeats over

A section is bound to a list: to the one in the current record, or else to the one in the data in
scope. Inside a repeated record a section over a collection looks into that record only. A section
without a list to repeat over ends the merge.
-/

namespace MailMerge.Section

/-- A section that looks into the current record only. -/
def isRecordOnly (opener : Marker) (nested : Bool) : Bool :=
  nested && !opener.fromSource

/-- The values that a section may be bound to, in the order of preference. -/
def candidates (opener : Marker) (c : Context) (recordOnly : Bool) :
    Except Fault (List Value) := do
  let fromRecord ← (Value.record c.record).resolve opener.argument
  if recordOnly then return [fromRecord]
  return [fromRecord, ← c.resolve opener.argument]

/-- The items of a list or tuple that has some. -/
def records? (v : Value) : Option (List Value) :=
  v.items?.filter fun items => !items.isEmpty

/-- Why none of the values can be repeated over. -/
def lackOf (vs : List Value) (recordOnly : Bool) : Lack :=
  match vs.filter fun v => !v.isMissing with
  | [] => .noData recordOnly
  | v :: rest =>
    if (v :: rest).any fun w => w.items?.isSome then .emptyList else .noList v.kindName

/-- The records that a section repeats over. -/
def bind {ι : Type} (opener : Marker) (c : Context) (recordOnly : Bool) :
    Merging ι (List Value) := do
  let vs ← .ofFault (candidates opener c recordOnly)
  match vs.findSome? records? with
  | some records => return records
  | none => .fail (.missingSection opener.label (lackOf vs recordOnly))

/-- The records that a section repeats over; more of them than expected are reported. -/
def records {ι : Type} (settings : Settings) (opener : Marker) (c : Context) (nested : Bool) :
    Merging ι (List Value) := do
  let records ← bind opener c (isRecordOnly opener nested)
  if settings.maxSectionRows < records.length then
    Merging.warn (.manyRecords opener.label records.length settings.maxSectionRows)
  return records

end MailMerge.Section
