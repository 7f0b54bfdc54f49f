import MailMerge.Context
import MailMerge.Field.Spec
import MailMerge.Format.Basic
import MailMerge.Marker.Scan
import MailMerge.Merge.Log
import MailMerge.Settings

/-!
# Filling in fields

Each field marker of a text is replaced by its value, marker by marker; the texts between markers
and all other markers stay. A marker for an image stays too, and is reported with the value of its
field.
-/

namespace MailMerge

/-- An image marker with the value of its field. -/
structure ImageRequest where
  marker : Text
  field : Text
  value : Value

namespace Field

/-- The text of a value. An unknown format is reported, and the value written as plain text. -/
def writeValue {ι : Type} (settings : Settings) (path : Text) (format : Option Text) (v : Value) :
    Merging ι Text :=
  match v.format settings.currencySymbol format with
  | .ok t => pure t
  | .error (.fault f) => .fail (.fault f)
  | .error (.unknown name) => do
    Merging.warn (.unknownFormat name path)
    .ofFault v.toPlain

/-- The text of a field: its value, or else its default. -/
def render {ι : Type} (settings : Settings) (c : Context) (spec : FieldSpec) : Merging ι Text := do
  let v ← .ofFault (c.resolve spec.path)
  if v.isMissing then
    match spec.default with
    | some default => return default
    | none => .fail (.unresolvedField spec.path)
  else
    writeValue settings spec.path (spec.format <|> c.fieldType spec.path) v

/-- The request that an image marker makes. A field that leads nowhere has no value. -/
def imageRequest (c : Context) (inner field : Text) : Merging ImageRequest Text := do
  let value ← .ofFault (c.resolve field)
  let value := if value.isMissing then .null else value
  let marker := Marker.enclose inner
  Merging.report [] [{ marker, field, value }] marker

/-- What stands in place of a marker, given by the text between its braces. -/
def replace (settings : Settings) (c : Context) (withImages : Bool) (inner : Text) :
    Merging ImageRequest Text :=
  let sense := Marker.classify inner
  match sense.kind with
  | .image => if withImages then imageRequest c inner sense.argument else pure (Marker.enclose inner)
  | .field =>
    let spec := FieldSpec.parse inner
    if spec.path = [] then pure (Marker.enclose inner) else render settings c spec
  | _ => pure (Marker.enclose inner)

/-- The segments of a text with each marker replaced, before the end of the text. -/
def replaceSegments (settings : Settings) (c : Context) (withImages : Bool) (tail : Text) :
    List (Text × Text) → Merging ImageRequest Text
  | [] => pure tail
  | (gap, inner) :: rest => do
    let replaced ← replace settings c withImages inner
    let after ← replaceSegments settings c withImages tail rest
    return gap ++ replaced ++ after

/-- The text with its fields filled in. Images are reported where asked for. -/
def substitute (settings : Settings) (c : Context) (withImages : Bool) (t : Text) :
    Merging ImageRequest Text :=
  let (segments, tail) := Marker.segments t
  replaceSegments settings c withImages tail segments

end Field
end MailMerge
