import MailMerge.Text.Class

/-!
# Field markers

A field marker names a path, and perhaps a format after a colon and a default after two question
marks: `path:format ?? 'default'`.
-/

namespace MailMerge

/-- What a field marker asks for. -/
structure FieldSpec where
  path : Text
  format : Option Text := none
  default : Option Text := none
deriving DecidableEq, Repr

namespace FieldSpec

/-- The text without the quotes around it, where it begins and ends with the same quote. -/
def unquote (t : Text) : Text :=
  match t with
  | [] => []
  | c :: rest => if (c = '\'' ∨ c = '"') ∧ rest.getLast? = some c then rest.dropLast else t

/-- A text, unless it is empty. -/
def nonempty? (t : Text) : Option Text :=
  if t = [] then none else some t

/-- The path and the format of a text, divided by its first colon. -/
def ofBody (body : Text) (default : Option Text) : FieldSpec :=
  match Text.cutFirst? [':'] (Text.trim body) with
  | none => { path := Text.trim body, default }
  | some (path, format) => { path := Text.trim path, format := nonempty? (Text.trim format), default }

/-- What the text between the braces asks for. -/
def parse (t : Text) : FieldSpec :=
  match Text.cutFirst? ['?', '?'] t with
  | none => ofBody t none
  | some (body, default) => ofBody body (some (unquote (Text.trim default)))

end FieldSpec
end MailMerge
