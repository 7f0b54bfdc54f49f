import MailMerge.Text.Basic

/-!
# Elements

An XML document as a tree of elements. An element holds the text before its first child, its
children, and the text that follows its own end up to the next tag.
-/

namespace MailMerge.Xml

/-- A name with its namespace, which is empty for a name in none. -/
structure Name where
  space : Text := []
  base : Text
deriving DecidableEq, Repr

/-- An element with its attributes in the order of the document. -/
inductive Element where
  | mk (name : Name) (attributes : List (Name × Text)) (text : Text) (children : List Element)
      (tail : Text)

namespace Element

mutual

/-- Whether two elements are the same. -/
def decideEq : (e e' : Element) → Decidable (e = e')
  | mk name attributes text children tail, mk name' attributes' text' children' tail' =>
    have := decideEqAll children children'
    decidable_of_iff (name = name' ∧ attributes = attributes' ∧ text = text' ∧ children = children' ∧ tail = tail')
      (by simp)

/-- Whether two lists of elements are the same. -/
def decideEqAll : (es es' : List Element) → Decidable (es = es')
  | [], [] => isTrue rfl
  | [], _ :: _ => isFalse (List.cons_ne_nil _ _).symm
  | _ :: _, [] => isFalse (List.cons_ne_nil _ _)
  | e :: es, e' :: es' =>
    have := decideEq e e'
    have := decideEqAll es es'
    decidable_of_iff (e = e' ∧ es = es') (by simp)

end

instance : DecidableEq Element :=
  decideEq

/-- The element's name. -/
def name : Element → Name
  | mk name .. => name

/-- The element's attributes. -/
def attributes : Element → List (Name × Text)
  | mk _ attributes .. => attributes

/-- The text before the first child. -/
def text : Element → Text
  | mk _ _ text .. => text

/-- The elements inside. -/
def children : Element → List Element
  | mk _ _ _ children _ => children

/-- The text after the element. -/
def tail : Element → Text
  | mk _ _ _ _ tail => tail

/-- The element with another text after it. -/
def withTail (e : Element) (t : Text) : Element :=
  mk e.name e.attributes e.text e.children t

/-- The value of an attribute. -/
def attribute? (e : Element) (name : Name) : Option Text :=
  e.attributes.lookup name

/-- The first child of a name. -/
def child? (e : Element) (name : Name) : Option Element :=
  e.children.find? fun c => c.name = name

/-- The children of a name. -/
def childrenOf (e : Element) (name : Name) : List Element :=
  e.children.filter fun c => c.name = name

mutual

/-- The element and all elements inside it, in the order of the document. -/
def all : Element → List Element
  | mk name attributes text children tail =>
    mk name attributes text children tail :: allOf children

/-- The elements of a list and all elements inside them, in the order of the document. -/
def allOf : List Element → List Element
  | [] => []
  | e :: es => e.all ++ allOf es

end

/-- The elements of a name among the element and all inside it. -/
def allNamed (e : Element) (name : Name) : List Element :=
  e.all.filter fun x => x.name = name

end Element
end MailMerge.Xml
