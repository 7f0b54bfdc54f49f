import MailMerge.Section.Open
import MailMerge.Section.Rendering
import MailMerge.Section.Template

/-!
# Expanding sections in a tree

A section of a table is the rows from the one with its opening marker to the one with its closing
marker. Outside tables it is a span inside one paragraph, or the sibling blocks from one paragraph
to another. Each is replaced by its template, rendered once per record: the first record goes into
the nodes that are there, the others into new ones. What is made is marked as rendered.

Tables inside repeated blocks, and cells of rows that are in no section, are expanded in turn.
-/

namespace MailMerge.Section

variable (settings : Settings)

/-! ## Rows -/

/-- A row of a template rendered for a record: into the row that is there, or as a new row. -/
def renderRow (c : Context) (original : Option Node) (snapshot : RowSnapshot) :
    Merging PendingImage Node := do
  let texts := snapshot.cells.mapM fun cell => render settings c true cell.text
  let filled : Merging ImageRequest Node := do
    match original with
    | some row => return row.writeRow (← texts)
    | none => return snapshot.build (← texts)
  let row ← filled.claimed (Node.paragraphsAt [] .rows)
  return row.markRendered

/-- The rows of a section, one set for each record. -/
def renderRows (c : Context) (nested : Bool) (opener : Marker) (closer : Option Marker)
    (rows : List Node) : Merging PendingImage (List Node) := do
  let records ← Section.records settings opener c nested
  let templates := (captureRows opener closer rows).zip rows
  let sets ← records.zipIdx.mapM fun (record, k) =>
    (Merging.forEach (fun (snapshot, row) =>
      renderRow settings (c.forRow record k) (if k = 0 then some row else none) snapshot)
      templates).shifted (k * templates.length)
  return sets.flatten

/-- A row of a table after its sections are expanded: one that was there, or one that was made. -/
inductive Slot (α : Type) where
  | kept (row : α)
  | made (row : Node)

/-- Where a section that starts in a row ends: how many rows follow it, and the closing marker. A
section that is never closed is that row alone. -/
def rowSection {ι : Type} (opener : Marker) (texts : List Text) :
    Merging ι (Nat × Option Marker) :=
  match closingText? opener texts with
  | some (count, closer) => pure (count, some closer)
  | none => do
    Merging.warn (.unclosedRows opener.label)
    return (0, none)

/-- The marker that starts a section in a row, unless the row is rendered already. -/
def rowOpener? (row : Node) : Option Marker :=
  if row.rendered then none else firstOpener? row.text

/-- The rows of a table with its sections expanded. -/
def expandRows {α : Type} (c : Context) (nested : Bool) (node : α → Node) :
    List α → Merging PendingImage (List (Slot α))
  | [] => pure []
  | r :: rs => do
    match rowOpener? (node r) with
    | none =>
      let rest ← (expandRows c nested node rs).shifted 1
      return .kept r :: rest
    | some opener =>
      let (count, closer) ← rowSection opener ((r :: rs).map fun x => (node x).text)
      let made ← renderRows settings c nested opener closer ((r :: rs.take count).map node)
      let rest ← (expandRows c nested node (rs.drop count)).shifted made.length
      return made.map .made ++ rest
  termination_by rows => rows.length
  decreasing_by
    · simp
    · simp only [List.length_cons, List.length_drop]
      omega

/-! ## Paragraphs -/

/-- The paragraph with its text rendered. -/
def renderParagraph (c : Context) (nested : Bool) (p : Paragraph) :
    Merging PendingImage Paragraph :=
  Merging.here do return p.setText (← render settings c nested p.text)

/-! ## Blocks -/

/-- The size of the node that a template copies. -/
noncomputable def BlockTemplate.size : BlockTemplate → Nat
  | .paragraph .. => 0
  | .node n => sizeOf n

theorem sizeOf_drop_le (count : Nat) (nodes : List Node) :
    sizeOf (nodes.drop count) ≤ sizeOf nodes := by
  induction nodes generalizing count with
  | nil => simp
  | cons n ns ih =>
    cases count with
    | zero => simp
    | succ count =>
      have := ih count
      simp only [List.drop_succ_cons, List.cons.sizeOf_spec]
      omega

theorem size_of_mem_captureBlocks {opener closer : Marker} {first : Node} {ns : List Node}
    {count : Nat} {template : BlockTemplate}
    (h : template ∈ captureBlocks opener closer first (ns.take count) ns[count]?) :
    template.size < sizeOf (first :: ns) := by
  cases template with
  | paragraph p snapshot =>
    simp only [BlockTemplate.size, List.cons.sizeOf_spec]
    omega
  | node n =>
    apply List.sizeOf_lt_of_mem
    rcases mem_of_node_mem_captureBlocks h with rfl | h | h
    · exact List.mem_cons_self ..
    · exact List.mem_cons_of_mem _ (List.mem_of_mem_take h)
    · exact List.mem_cons_of_mem _ (List.mem_of_getElem? h)

/-- Where a section that starts in a block ends: how many blocks follow it, and the closing marker.
Only paragraphs are looked at. -/
def blockSection? (opener : Marker) (nodes : List Node) : Option (Nat × Marker) :=
  closingText? opener (nodes.map fun n => n.paragraph?.elim [] (·.text))

/-- A paragraph of a template rendered for a record: the first goes into the paragraph that is
there. -/
def renderTemplate (c : Context) (k : Nat) (p : Paragraph) (snapshot : ParagraphSnapshot) :
    Merging PendingImage Node := do
  let filled : Merging ImageRequest Paragraph := do
    let t ← render settings c true snapshot.text
    return if k = 0 then p.setText t else snapshot.build t
  return .paragraph (← filled.here) true

/-- A table of a template whose sections are expanded, with the rest of it rendered. -/
def finishTable (c : Context) (attributes : Text) (rows : List Node) :
    Merging PendingImage Node := do
  let rows ← Node.rewriteOpen (renderParagraph settings c true) .rows 0 rows
  return .table attributes (rows.map Node.markRendered) true

mutual

/-- A list of blocks with the sections in it expanded. -/
def expandBlocks (c : Context) (nested : Bool) :
    List Node → Merging PendingImage (List Node)
  | [] => pure []
  | .table attributes rows false :: ns =>
    Merging.followedBy
      (do
        let rows ← Merging.under 0 (expandTable c nested rows)
        return [.table attributes rows])
      (expandBlocks c nested ns)
  | .paragraph p false :: ns =>
    match firstOpener? p.text with
    | none => Merging.followedBy (pure [.paragraph p]) (expandBlocks c nested ns)
    | some opener =>
      match blockSection? opener (.paragraph p :: ns) with
      | none => do
        Merging.warn (.unclosedSection opener.argument)
        Merging.followedBy (pure [.paragraph p]) (expandBlocks c nested ns)
      | some (0, _) =>
        Merging.followedBy
          (do
            let p ← Merging.under 0 (renderParagraph settings c nested p)
            return [.paragraph p true])
          (expandBlocks c nested ns)
      | some (count + 1, closer) =>
        Merging.followedBy
          (do
            let records ← Section.records settings opener c nested
            let templates := captureBlocks opener closer (.paragraph p) (ns.take count) ns[count]?
            let sets ← records.zipIdx.mapM fun (record, k) =>
              (Merging.forEach (fun template => expandCopy (c.forRow record k) k template.val)
                templates.attach).shifted (k * templates.length)
            return sets.flatten)
          (expandBlocks c nested (ns.drop (count + 1)))
  | n :: ns => Merging.followedBy (pure [n]) (expandBlocks c nested ns)
  termination_by nodes => sizeOf nodes
  decreasing_by
    · simp only [List.cons.sizeOf_spec, Node.table.sizeOf_spec]; omega
    · simp only [List.cons.sizeOf_spec]; omega
    · simp only [List.cons.sizeOf_spec]; omega
    · simp only [List.cons.sizeOf_spec]; omega
    · simp only [List.cons.sizeOf_spec]; omega
    · exact size_of_mem_captureBlocks template.property
    · have := sizeOf_drop_le (count + 1) ns
      simp only [List.cons.sizeOf_spec]
      omega
    · simp only [List.cons.sizeOf_spec]; omega

/-- A block of a template, for a record: a paragraph is rendered, a table expanded and the rest of
it rendered, and anything else stays. -/
def expandCopy (c : Context) (k : Nat) : BlockTemplate → Merging PendingImage Node
  | .paragraph p snapshot => renderTemplate settings c k p snapshot
  | .node (.table attributes rows false) => do
    let rows ← expandTable c true rows
    finishTable settings c attributes rows
  | .node n => pure n.markRendered
  termination_by template => template.size
  decreasing_by
    simp only [BlockTemplate.size, Node.table.sizeOf_spec]
    omega

/-- The rows of a table with its sections expanded, and the sections in the cells of the other
rows. -/
def expandTable (c : Context) (nested : Bool) (rows : List Node) :
    Merging PendingImage (List Node) := do
  let slots ← expandRows settings c nested Subtype.val rows.attach
  Merging.forEach (fun slot =>
    match slot with
    | .made row => pure row
    | .kept row => expandRow c nested row.val) slots
  termination_by sizeOf rows
  decreasing_by exact List.sizeOf_lt_of_mem row.property

/-- A row in no section, with the sections in its cells expanded. -/
def expandRow (c : Context) (nested : Bool) : Node → Merging PendingImage Node
  | .row attributes cells false => do
    let cells ← Merging.forEach (fun cell => expandCell c nested cell.val) cells.attach
    return .row attributes cells
  | n => pure n
  termination_by row => sizeOf row
  decreasing_by
    have := List.sizeOf_lt_of_mem cell.property
    simp only [Node.row.sizeOf_spec]
    omega

/-- A cell with the sections in it expanded. -/
def expandCell (c : Context) (nested : Bool) : Node → Merging PendingImage Node
  | .cell attributes children rendered =>
    return .cell attributes (← expandBlocks c nested children) rendered
  | n => pure n
  termination_by cell => sizeOf cell

end

end MailMerge.Section
