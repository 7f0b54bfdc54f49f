import MailMerge.Tree.Document

/-!
# Editing lists of nodes

Nodes are put in, taken out and found by an index, which counts from the end where it is negative.
-/

namespace MailMerge

namespace Node

/-- The place in a list that an index stands for. -/
def placeOf? (length : Nat) (index : Int) : Option Nat :=
  let i := if index < 0 then index + length else index
  if 0 ≤ i ∧ i < length then some i.toNat else none

/-- The place in front of which a node goes that is put in at an index; beyond the ends that is an
end. -/
def insertionPlace (length : Nat) (index : Int) : Nat :=
  if index < 0 then (index + length).toNat else min index.toNat length

/-- The nodes with one more at an index. -/
def insertAt (nodes : List Node) (index : Int) (n : Node) : List Node :=
  nodes.insertIdx (insertionPlace nodes.length index) n

/-- The node at an index, and the nodes without it. -/
def removeAt? (nodes : List Node) (index : Int) : Option (Node × List Node) := do
  let i ← placeOf? nodes.length index
  let n ← nodes[i]?
  return (n, nodes.eraseIdx i)

/-- The place that a list of indices leads to, from a list of nodes on. -/
def locate? : (nodes : List Node) → List Int → Option Path
  | _, [] => some []
  | nodes, index :: rest => do
    let i ← placeOf? nodes.length index
    let n ← nodes[i]?
    let path ← locate? n.children rest
    return i :: path

/-- The list of nodes at a place: the whole list, or the nodes inside the node there. -/
def listAt (nodes : List Node) (path : Path) : List Node :=
  if path.isEmpty then nodes else ((at? nodes path).map children).getD []

/-- The nodes with the list at a place changed. -/
def modifyListAt (f : List Node → List Node) (nodes : List Node) (path : Path) : List Node :=
  if path.isEmpty then f nodes else modifyAt (fun n => n.withChildren (f n.children)) nodes path

/-- The node with another text, and in a paragraph perhaps in another style. Only paragraphs and
cells can be written into. -/
def write? (t : Text) (style : Option Text) : Node → Option Node
  | paragraph p rendered =>
    some (paragraph (style.elim (p.setText t) (p.restyle t)) rendered)
  | cell attributes children rendered => some ((cell attributes children rendered).setText t)
  | _ => none

/-- The nodes with another text in the node at a place, where one can be written. -/
def writeAt (nodes : List Node) (indices : List Int) (t : Text) : List Node :=
  match locate? nodes indices with
  | some path => modifyAt (fun n => (n.write? t none).getD n) nodes path
  | none => nodes

end Node

/-- The document with another text in the node at a place of a part, where one can be written. -/
def Document.writeAt (d : Document) (part : Text) (indices : List Int) (t : Text) : Document where
  parts := d.parts.map fun p =>
    if p.name = part then { p with nodes := Node.writeAt p.nodes indices t } else p

end MailMerge
