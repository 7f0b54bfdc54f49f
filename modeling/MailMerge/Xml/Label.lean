import MailMerge.Xml.Element

/-!
# Labels of namespaces

In a written document each namespace has a label, which stands before the names in it. Labels come
from a register; a namespace that is not registered gets a number.
-/

namespace MailMerge.Xml

/-- Namespaces with their labels. -/
abbrev Labels := List (Text × Text)

namespace Labels

/-- The label that the namespace of XML itself has, and that needs no declaration. -/
def reserved : Text := ['x', 'm', 'l']

/-- The namespaces that have a label from the start. -/
def standard : Labels :=
  [ ("http://www.w3.org/XML/1998/namespace", reserved),
    ("http://www.w3.org/1999/xhtml", "html"),
    ("http://www.w3.org/1999/02/22-rdf-syntax-ns#", "rdf"),
    ("http://schemas.xmlsoap.org/wsdl/", "wsdl"),
    ("http://www.w3.org/2001/XMLSchema", "xs"),
    ("http://www.w3.org/2001/XMLSchema-instance", "xsi"),
    ("http://purl.org/dc/elements/1.1/", "dc") ]

/-- The register with a label for a namespace. What had the label, or was the namespace's label
before, is dropped. -/
def register (labels : Labels) (label space : Text) : Labels :=
  (space, label) :: labels.filter fun e => e.1 ≠ space ∧ e.2 ≠ label

/-- The label of a namespace in a fragment that uses some namespaces already: the registered one,
or else their number. -/
def choose (registered used : Labels) (space : Text) : Text :=
  (registered.lookup space).getD ('n' :: 's' :: Text.ofNat used.length)

/-- The namespaces that a fragment uses, with that of one more name. -/
def use (registered used : Labels) (name : Name) : Labels :=
  if name.space = [] ∨ (used.lookup name.space).isSome then used
  else
    let label := choose registered used name.space
    if label = reserved then used else used ++ [(name.space, label)]

/-- The name as it is written: behind the label of its namespace, if it has one. -/
def qualify (registered used : Labels) (name : Name) : Text :=
  if name.space = [] then name.base
  else
    let label := (used.lookup name.space).getD (choose registered used name.space)
    label ++ ':' :: name.base

end Labels
end MailMerge.Xml
