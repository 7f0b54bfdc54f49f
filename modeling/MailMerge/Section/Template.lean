import MailMerge.Marker.Basic
import MailMerge.Text.Class
import MailMerge.Tree.Snapshot

/-!
# Templates of repeated rows and blocks

The rows or blocks of a section are captured once, with the two markers of the section taken out,
and replayed for every record. A marker that stands alone on a line takes the line with it.
-/

namespace MailMerge.Section

/-! ## Taking out a marker -/

/-- The text without the marker between two parts of it. If there are several lines and the marker's
line holds nothing else but blanks, the line goes too. -/
def withoutMarker (before marker after : Text) : Text :=
  let (earlier, lineStart) := match Text.cutLast? ['\n'] before with
    | some (earlier, lineStart) => (some earlier, lineStart)
    | none => (none, before)
  let (lineEnd, later) := match Text.cutFirst? ['\n'] after with
    | some (lineEnd, later) => (lineEnd, some later)
    | none => (after, none)
  let severalLines := '\n' ∈ before ++ marker ++ after
  if Text.allBlank lineStart ∧ Text.allBlank lineEnd ∧ severalLines then
    match earlier, later with
    | some earlier, some later => earlier ++ '\n' :: later
    | none, some later => later
    | some earlier, none => earlier
    | none, none => []
  else
    before ++ after

/-- The text without the first occurrence of a marker. -/
def withoutFirst (marker t : Text) : Text :=
  match Text.cutFirst? marker t with
  | some (before, after) => withoutMarker before marker after
  | none => t

/-- The text without the last occurrence of a marker. -/
def withoutLast (marker t : Text) : Text :=
  match Text.cutLast? marker t with
  | some (before, after) => withoutMarker before marker after
  | none => t

/-! ## Rows -/

/-- The cells with a change made to the first one whose text holds a marker. -/
def changeFirstCell (marker : Text) (change : Text → Text) :
    List CellSnapshot → List CellSnapshot
  | [] => []
  | c :: cells =>
    if Text.contains marker c.text then { c with text := change c.text } :: cells
    else c :: changeFirstCell marker change cells

/-- The row without the first occurrence of a marker in it. -/
def RowSnapshot.stripFirst (marker : Text) (s : RowSnapshot) : RowSnapshot :=
  { s with cells := changeFirstCell marker (withoutFirst marker) s.cells }

/-- The row without the last occurrence of a marker in it. -/
def RowSnapshot.stripLast (marker : Text) (s : RowSnapshot) : RowSnapshot :=
  { s with cells := (changeFirstCell marker (withoutLast marker) s.cells.reverse).reverse }

/-- The rows of a section, captured without its markers. -/
def captureRows (opener : Marker) (closer : Option Marker) (rows : List Node) :
    List RowSnapshot :=
  let opened := (rows.map Node.captureRow).modifyHead (RowSnapshot.stripFirst opener.text)
  match closer with
  | none => opened
  | some closer => (opened.reverse.modifyHead (RowSnapshot.stripLast closer.text)).reverse

/-! ## Blocks -/

/-- A block to replay: a paragraph with what is kept of it, or a node that is copied. -/
inductive BlockTemplate where
  | paragraph (p : Paragraph) (snapshot : ParagraphSnapshot)
  | node (n : Node)

/-- A block that lies between the boundaries. -/
def captureBlock : Node → BlockTemplate
  | .paragraph p _ => .paragraph p p.capture
  | n => .node n

/-- A block in which one of the section's markers stands. It is left out if only blanks are left of
its text without the marker. -/
def captureBoundary (strip : Text → Text) : Node → Option BlockTemplate
  | .paragraph p _ =>
    let t := strip p.text
    if Text.allBlank t then none else some (.paragraph p { p.capture with text := t })
  | n => some (captureBlock n)

/-- The blocks of a section, captured without its markers: the first one, those between, and the
last one. -/
def captureBlocks (opener closer : Marker) (first : Node) (between : List Node)
    (last : Option Node) : List BlockTemplate :=
  (captureBoundary (withoutFirst opener.text) first).toList ++ between.map captureBlock
    ++ (last.bind (captureBoundary (withoutLast closer.text))).toList

theorem eq_of_captureBlock_eq {n m : Node} (h : captureBlock n = .node m) : m = n := by
  unfold captureBlock at h
  split at h
  · simp at h
  · simpa using h.symm

theorem eq_of_captureBoundary_eq {strip : Text → Text} {n m : Node}
    (h : captureBoundary strip n = some (.node m)) : m = n := by
  unfold captureBoundary at h
  split at h
  · dsimp only at h
    split at h <;> simp at h
  · exact eq_of_captureBlock_eq (Option.some.inj h)

/-- A node that is copied is one of the section's blocks. -/
theorem mem_of_node_mem_captureBlocks {opener closer : Marker} {first n : Node}
    {between : List Node} {last : Option Node}
    (h : .node n ∈ captureBlocks opener closer first between last) :
    n = first ∨ n ∈ between ∨ last = some n := by
  simp only [captureBlocks, List.mem_append, List.mem_map, Option.mem_toList,
    Option.bind_eq_some_iff] at h
  rcases h with (h | ⟨x, hx, he⟩) | ⟨x, hx, he⟩
  · exact .inl (eq_of_captureBoundary_eq h)
  · exact .inr (.inl (eq_of_captureBlock_eq he ▸ hx))
  · exact .inr (.inr (eq_of_captureBoundary_eq he ▸ hx))

end MailMerge.Section
