import MailMerge.Text.Basic

/-!
# Document trees

A document is a list of nodes: paragraphs of styled runs, tables of rows of cells, page breaks, and
parts that are carried along verbatim. Properties of nodes and runs are texts that nothing here
looks into. A node that a repeating section has produced is marked as rendered, and later stages
of a merge leave it alone.

**`text_setText`**: a paragraph has the text that was written into it.
-/

namespace MailMerge

/-- A piece of a paragraph in one style. A piece with raw content, such as a drawing, is no
text. -/
structure Run where
  text : Text := []
  style : Text := []
  raw : Option Text := none
deriving DecidableEq, Repr

/-- A block of text made of runs. -/
structure Paragraph where
  runs : List Run := []
  attributes : Text := []
deriving DecidableEq, Repr

namespace Paragraph

/-- A paragraph of one run; an empty text makes no run. -/
def ofText (t : Text) (attributes style : Text) : Paragraph where
  runs := if t = [] then [] else [{ text := t, style }]
  attributes

/-- The texts of the runs, those with raw content left out. -/
def text (p : Paragraph) : Text :=
  (p.runs.filter fun r => r.raw.isNone).flatMap (·.text)

/-- The style of the first run of text. -/
def runStyle (p : Paragraph) : Text :=
  ((p.runs.find? fun r => r.raw.isNone).map (·.style)).getD []

/-- The paragraph with a single run of text in a style. Runs with raw content stay: those before
the first run of text in front of it, the others behind. -/
def restyle (p : Paragraph) (t style : Text) : Paragraph :=
  let leading := p.runs.takeWhile fun r => r.raw.isSome
  let trailing := (p.runs.dropWhile fun r => r.raw.isSome).filter fun r => r.raw.isSome
  { p with runs := leading ++ (ofText t [] style).runs ++ trailing }

/-- The paragraph with another text, in the style of its first run of text. If it has that text
already, its runs stay as they are. -/
def setText (p : Paragraph) (t : Text) : Paragraph :=
  if t = p.text then p else p.restyle t p.runStyle

end Paragraph

/-- A node of a document. Rows stand in tables and cells in rows; cells hold nodes again. -/
inductive Node where
  | paragraph (p : Paragraph) (rendered : Bool := false)
  | table (attributes : Text) (rows : List Node) (rendered : Bool := false)
  | row (attributes : Text) (cells : List Node) (rendered : Bool := false)
  | cell (attributes : Text) (children : List Node) (rendered : Bool := false)
  | pageBreak (attributes : Text)
  /-- A part that is not looked into. -/
  | verbatim (xml : Text)
deriving Inhabited

namespace Node

/-- A paragraph with a text and no properties. -/
def ofText (t : Text) : Node :=
  paragraph (Paragraph.ofText t [] [])

/-- The nodes inside the node. -/
def children : Node → List Node
  | table _ rows _ => rows
  | row _ cells _ => cells
  | cell _ children _ => children
  | _ => []

/-- The node with other nodes inside; one that can hold none stays. -/
def withChildren (n : Node) (nodes : List Node) : Node :=
  match n with
  | table attributes _ rendered => table attributes nodes rendered
  | row attributes _ rendered => row attributes nodes rendered
  | cell attributes _ rendered => cell attributes nodes rendered
  | n => n

/-- The properties of the node. -/
def attributes : Node → Text
  | paragraph p _ => p.attributes
  | table attributes _ _ => attributes
  | row attributes _ _ => attributes
  | cell attributes _ _ => attributes
  | pageBreak attributes => attributes
  | verbatim _ => []

/-- A repeating section has produced the node. -/
def rendered : Node → Bool
  | paragraph _ rendered => rendered
  | table _ _ rendered => rendered
  | row _ _ rendered => rendered
  | cell _ _ rendered => rendered
  | _ => false

/-- The node, marked as rendered. Page breaks and verbatim parts need no mark. -/
def markRendered : Node → Node
  | paragraph p _ => paragraph p true
  | table attributes rows _ => table attributes rows true
  | row attributes cells _ => row attributes cells true
  | cell attributes children _ => cell attributes children true
  | n => n

/-- The paragraph that the node is. -/
def paragraph? : Node → Option Paragraph
  | paragraph p _ => some p
  | _ => none

/-- The node is a paragraph. -/
def isParagraph (n : Node) : Bool :=
  n.paragraph?.isSome

/-- The paragraphs among nodes. -/
def paragraphsOf (nodes : List Node) : List Paragraph :=
  nodes.filterMap paragraph?

/-- The lines of a cell: the texts of the paragraphs directly in it. -/
def linesOf (nodes : List Node) : List Text :=
  (paragraphsOf nodes).map (·.text)

mutual

/-- The text of the node: the cells of a row are set apart by tabs, the rest by newlines. -/
def text : Node → Text
  | paragraph p _ => p.text
  | table _ rows _ => Text.unlines (texts rows)
  | row _ cells _ => Text.join ['\t'] (texts cells)
  | cell _ children _ => Text.unlines (linesOf children)
  | pageBreak _ => []
  | verbatim _ => []

/-- The texts of nodes. -/
def texts : List Node → List Text
  | [] => []
  | n :: ns => n.text :: texts ns

end

/-- The text of a list of nodes. -/
def bodyText (nodes : List Node) : Text :=
  Text.unlines (texts nodes)

/-! ## Writing into cells -/

/-- The nodes with the paragraphs among them given new texts, in order, while there are texts. -/
def setLines : List Node → List Text → List Node
  | paragraph p rendered :: nodes, t :: ts => paragraph (p.setText t) rendered :: setLines nodes ts
  | n :: nodes, ts => n :: setLines nodes ts
  | [], _ => []

/-- New paragraphs for lines, with the properties of the first paragraph, before the nodes that are
no paragraphs. -/
def rebuildLines (nodes : List Node) (ts : List Text) : List Node :=
  let first := (paragraphsOf nodes).headD {}
  ts.map (fun t => paragraph (Paragraph.ofText t first.attributes first.runStyle))
    ++ nodes.filter fun n => !n.isParagraph

/-- The nodes of a cell with another text, a paragraph for each line. As many lines as there are
paragraphs go into these; otherwise the paragraphs are made anew. -/
def setCellText (nodes : List Node) (t : Text) : List Node :=
  let ts := Text.lines t
  if ts.length = (paragraphsOf nodes).length then setLines nodes ts else rebuildLines nodes ts

/-- The node with another text, if it is a cell. -/
def setText (n : Node) (t : Text) : Node :=
  match n with
  | cell attributes children rendered => cell attributes (setCellText children t) rendered
  | n => n

end Node

/-! ## Laws -/

namespace Paragraph

theorem text_restyle (p : Paragraph) (t style : Text) : (p.restyle t style).text = t := by
  have hl : ∀ rs : List Run, ((rs.takeWhile fun r => r.raw.isSome).filter
      fun r => r.raw.isNone) = [] := by
    intro rs
    rw [List.filter_eq_nil_iff]
    intro r hr
    have : r.raw.isSome = true := by
      induction rs with
      | nil => simp at hr
      | cons x xs ih =>
        rw [List.takeWhile_cons] at hr
        split at hr
        · next hx =>
          rcases List.mem_cons.1 hr with rfl | h
          · exact hx
          · exact ih h
        · simp at hr
    cases h : r.raw <;> simp_all
  have ht : ∀ rs : List Run, ((rs.filter fun r => r.raw.isSome).filter
      fun r => r.raw.isNone) = [] := by
    intro rs
    rw [List.filter_eq_nil_iff]
    intro r hr
    have := (List.mem_filter.1 hr).2
    cases h : r.raw <;> simp_all
  unfold text restyle ofText
  simp only [List.filter_append, hl, ht, List.nil_append, List.append_nil]
  by_cases h : t = []
  · simp [h]
  · simp [h]

theorem text_setText (p : Paragraph) (t : Text) : (p.setText t).text = t := by
  unfold setText
  split
  · next h => exact h.symm
  · exact text_restyle ..

end Paragraph
end MailMerge
