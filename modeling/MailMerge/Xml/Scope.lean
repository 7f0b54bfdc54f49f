import MailMerge.Xml.Element
import MailMerge.Xml.Token

/-!
# Namespaces in scope

A name is written with a label before a colon, or with none. An element may bind labels, and the
empty label too, to namespaces for itself and what is inside it. Names of attributes without a label
are in no namespace.
-/

namespace MailMerge.Xml

/-- The namespaces of labels, the inner ones first. -/
abbrev Scope := List (Text × Text)

namespace Scope

/-- The namespace of the label `xml`. -/
def xmlSpace : Text := "http://www.w3.org/XML/1998/namespace"

/-- The namespace of the label with which labels are bound. -/
def bindingSpace : Text := "http://www.w3.org/2000/xmlns/"

/-- The label with which labels are bound. -/
def bindingLabel : Text := "xmlns"

/-- What is in scope everywhere. -/
def initial : Scope := [("xml", xmlSpace)]

/-- The label of a name and the name after it. -/
def splitName (t : Text) : Option Text × Text :=
  match Text.cutFirst? [':'] t with
  | some (label, base) => (some label, base)
  | none => (none, t)

/-- The label that an attribute binds; the empty one if it gives the namespace of names without a
label. -/
def boundLabel? (name : Text) : Option Text :=
  match splitName name with
  | (none, base) => if base = bindingLabel then some [] else none
  | (some label, base) => if label = bindingLabel then some base else none

/-- The scope with a label bound. The label `xml` and its namespace belong to each other. -/
def bind? (scope : Scope) (label space : Text) : Option Scope :=
  if label = bindingLabel ∨ space = bindingSpace then none
  else if (label = "xml".toList) ≠ (space = xmlSpace) then none
  else if label ≠ [] ∧ space = [] then none
  else if '}' ∈ space then none
  else some ((label, space) :: scope)

/-- The scope inside an element with the given attributes. -/
def enter? (scope : Scope) (attributes : List (Text × Text)) : Option Scope :=
  attributes.foldlM (fun scope (name, value) =>
    match boundLabel? name with
    | some label => scope.bind? label value
    | none => some scope) scope

/-- The name of an element. -/
def elementName? (scope : Scope) (t : Text) : Option Name :=
  match splitName t with
  | (none, base) => some { space := (scope.lookup []).getD [], base }
  | (some label, base) => (scope.lookup label).map fun space => { space, base }

/-- The name of an attribute. -/
def attributeName? (scope : Scope) (t : Text) : Option Name :=
  match splitName t with
  | (none, base) => some { base }
  | (some label, base) => (scope.lookup label).map fun space => { space, base }

/-- The attributes with their names, without those that bind labels. No name may come twice. -/
def attributes? (scope : Scope) (attributes : List (Text × Text)) :
    Option (List (Name × Text)) := do
  let named ← (attributes.filter fun a => (boundLabel? a.1).isNone).mapM fun (name, value) => do
    return (← scope.attributeName? name, value)
  if (named.map (·.1)).Nodup then some named else none

end Scope
end MailMerge.Xml
