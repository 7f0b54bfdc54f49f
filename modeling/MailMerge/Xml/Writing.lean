import MailMerge.Xml.Label

/-!
# Writing a fragment

An element is written with the text after it. The fragment's first tag declares the labels of all
namespaces in it, in the order of the labels. An element without content has no end tag.
-/

namespace MailMerge.Xml

/-! ## Escaping -/

/-- A character of a text between tags. -/
def escapeChar (c : Char) : Text :=
  if c = '&' then "&amp;"
  else if c = '<' then "&lt;"
  else if c = '>' then "&gt;"
  else [c]

/-- A text between tags. -/
def escape (t : Text) : Text :=
  t.flatMap escapeChar

/-- A character of an attribute's value. -/
def escapeValueChar (c : Char) : Text :=
  if c = '"' then "&quot;"
  else if c = '\r' then "&#13;"
  else if c = '\n' then "&#10;"
  else if c = '\t' then "&#09;"
  else escapeChar c

/-- The value of an attribute. -/
def escapeValue (t : Text) : Text :=
  t.flatMap escapeValueChar

/-! ## Tags -/

/-- An attribute or a declaration, after a space. -/
def writeSetting (name value : Text) : Text :=
  ' ' :: name ++ '=' :: '"' :: escapeValue value ++ ['"']

/-- The declarations of labels, in the order of the labels. -/
def declarations (used : Labels) : Text :=
  (used.mergeSort fun a b => !(b.2 < a.2)).flatMap fun (space, label) =>
    writeSetting ("xmlns:" ++ label) space

namespace Element

/-- The names in the element, in the order of the document: of each element its own, then those of
its attributes. -/
def names (e : Element) : List Name :=
  e.all.flatMap fun x => x.name :: x.attributes.map (·.1)

/-- The namespaces in the element with their labels. -/
def labels (registered : Labels) (e : Element) : Labels :=
  e.names.foldl (Labels.use registered) []

mutual

/-- The element, its content and the text after it; names as `qualify` writes them, and `extra` at
the end of the first tag's name. -/
def write (qualify : Name → Text) (extra : Text) : Element → Text
  | mk name attributes text children tail =>
    let label := qualify name
    let start := '<' :: label ++ extra
      ++ attributes.flatMap fun (name, value) => writeSetting (qualify name) value
    let body :=
      if text = [] ∧ children.isEmpty then [' ', '/', '>']
      else '>' :: escape text ++ writeAll qualify children ++ ['<', '/'] ++ label ++ ['>']
    start ++ body ++ escape tail

/-- The elements one after the other. -/
def writeAll (qualify : Name → Text) : List Element → Text
  | [] => []
  | e :: es => write qualify [] e ++ writeAll qualify es

end

/-- The element as a fragment of its own, with the text after it. -/
def toXml (registered : Labels) (e : Element) : Text :=
  let used := e.labels registered
  write (Labels.qualify registered used) (declarations used) e

end Element
end MailMerge.Xml
