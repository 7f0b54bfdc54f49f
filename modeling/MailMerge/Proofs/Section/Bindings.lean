import MailMerge.Proofs.Section.Traced

/-!
# The sections that an expansion binds

The walk that expands sections, as a traced run: it hands down the scope of the records around it. The
traced walk runs as the walk itself, which hands down a flag in place of the records. So the flag is
always right: a section over a collection that lies in a replayed record is bound to the list that the
record holds under its name, whatever there is beyond the record, and the run fails if there is none.

**`run_expandBlocks`**: the traced walk runs as the walk itself.

**`expandBlocks_bindings`**: a collection in a replayed record is bound in that record alone.
-/

namespace MailMerge.Section

variable (settings : Settings)

namespace Traced

/-! ## Texts -/

/-- The text rendered in a scope. -/
def render (s : Scope) (t : Text) : Traced ImageRequest Text := do
  let spans := (Span.find t).1.attach
  step (Merging.report (Span.find t).2 [] ())
  let outer ← step (Conditional.resolve settings s.context.resolve (Span.setAside t 0 0 (Span.find t).1))
  let outer ← step (Field.substitute settings s.context true outer)
  if spans.isEmpty then return outer
  let texts ← (Span.pieces outer).mapM fun piece =>
    match piece with
    | .char ch => pure [ch]
    | .placeholder digits => do
      let index ← step (.ofFault (placeholderNumber digits))
      match spans[index]? with
      | none => step (.fail (.fault .unknownPlaceholder))
      | some ⟨span, _hs⟩ => do
        let records ← Traced.records settings s span.opener
        let texts ← records.zipIdx.mapM fun (record, i) => render (s.within record i) span.body
        return span.trimmed texts.flatten
  return texts.flatten
  termination_by t.length
  decreasing_by exact Span.length_body_of_mem_find _hs

/-- The paragraph with its text rendered. -/
def renderParagraph (s : Scope) (p : Paragraph) : Traced PendingImage Paragraph :=
  Traced.here do return p.setText (← render settings s p.text)

/-! ## Rows -/

/-- A row of a template rendered in the scope of a record. -/
def renderRow (s : Scope) (original : Option Node) (snapshot : RowSnapshot) :
    Traced PendingImage Node := do
  let texts := snapshot.cells.mapM fun cell => render settings s cell.text
  let filled : Traced ImageRequest Node := do
    match original with
    | some row => return row.writeRow (← texts)
    | none => return snapshot.build (← texts)
  let row ← filled.claimed (Node.paragraphsAt [] .rows)
  return row.markRendered

/-- The rows of a section, one set for each record. -/
def renderRows (s : Scope) (opener : Marker) (closer : Option Marker) (rows : List Node) :
    Traced PendingImage (List Node) := do
  let records ← Traced.records settings s opener
  let templates := (captureRows opener closer rows).zip rows
  let sets ← records.zipIdx.mapM fun (record, k) =>
    (Traced.forEach (fun (snapshot, row) =>
      renderRow settings (s.within record k) (if k = 0 then some row else none) snapshot)
      templates).shifted (k * templates.length)
  return sets.flatten

/-- The rows of a table with its sections expanded. -/
def expandRows {α : Type} (s : Scope) (node : α → Node) :
    List α → Traced PendingImage (List (Slot α))
  | [] => pure []
  | r :: rs => do
    match rowOpener? (node r) with
    | none =>
      let rest ← (expandRows s node rs).shifted 1
      return .kept r :: rest
    | some opener =>
      let (count, closer) ← step (rowSection opener ((r :: rs).map fun x => (node x).text))
      let made ← renderRows settings s opener closer ((r :: rs.take count).map node)
      let rest ← (expandRows s node (rs.drop count)).shifted made.length
      return made.map .made ++ rest
  termination_by rows => rows.length
  decreasing_by
    · simp
    · simp only [List.length_cons, List.length_drop]
      omega

/-! ## Blocks -/

/-- A paragraph of a template rendered in the scope of a record. -/
def renderTemplate (s : Scope) (k : Nat) (p : Paragraph) (snapshot : ParagraphSnapshot) :
    Traced PendingImage Node := do
  let filled : Traced ImageRequest Paragraph := do
    let t ← render settings s snapshot.text
    return if k = 0 then p.setText t else snapshot.build t
  return .paragraph (← filled.here) true

mutual

/-- The node at a level, with its open paragraphs rewritten. -/
def rewriteOpenIn (f : Paragraph → Traced PendingImage Paragraph) :
    Node.Level → Node → Traced PendingImage Node
  | .blocks, .paragraph p false => return .paragraph (← f p)
  | .blocks, .table attributes rows false =>
    return .table attributes (← rewriteOpen f .rows 0 rows)
  | .rows, .row attributes cells false => return .row attributes (← rewriteOpen f .cells 0 cells)
  | .cells, .cell attributes children rendered =>
    return .cell attributes (← rewriteOpen f .blocks 0 children) rendered
  | _, n => pure n

/-- The nodes of a list from an index on, with their open paragraphs rewritten. -/
def rewriteOpen (f : Paragraph → Traced PendingImage Paragraph) (level : Node.Level) (index : Nat) :
    List Node → Traced PendingImage (List Node)
  | [] => pure []
  | n :: ns => do
    let n ← (rewriteOpenIn f level n).under index
    let ns ← rewriteOpen f level (index + 1) ns
    return n :: ns

end

/-- A table of a template whose sections are expanded, with the rest of it rendered. -/
def finishTable (s : Scope) (attributes : Text) (rows : List Node) : Traced PendingImage Node := do
  let rows ← rewriteOpen (renderParagraph settings s) .rows 0 rows
  return .table attributes (rows.map Node.markRendered) true

mutual

/-- A list of blocks with the sections in it expanded. -/
def expandBlocks (s : Scope) : List Node → Traced PendingImage (List Node)
  | [] => pure []
  | .table attributes rows false :: ns =>
    Traced.followedBy
      (do
        let rows ← Traced.under 0 (expandTable s rows)
        return [.table attributes rows])
      (expandBlocks s ns)
  | .paragraph p false :: ns =>
    match firstOpener? p.text with
    | none => Traced.followedBy (pure [.paragraph p]) (expandBlocks s ns)
    | some opener =>
      match blockSection? opener (.paragraph p :: ns) with
      | none => do
        step (Merging.warn (.unclosedSection opener.argument))
        Traced.followedBy (pure [.paragraph p]) (expandBlocks s ns)
      | some (0, _) =>
        Traced.followedBy
          (do
            let p ← Traced.under 0 (renderParagraph settings s p)
            return [.paragraph p true])
          (expandBlocks s ns)
      | some (count + 1, closer) =>
        Traced.followedBy
          (do
            let records ← Traced.records settings s opener
            let templates := captureBlocks opener closer (.paragraph p) (ns.take count) ns[count]?
            let sets ← records.zipIdx.mapM fun (record, k) =>
              (Traced.forEach (fun template => expandCopy (s.within record k) k template.val)
                templates.attach).shifted (k * templates.length)
            return sets.flatten)
          (expandBlocks s (ns.drop (count + 1)))
  | n :: ns => Traced.followedBy (pure [n]) (expandBlocks s ns)
  termination_by nodes => sizeOf nodes
  decreasing_by
    · simp only [List.cons.sizeOf_spec, Node.table.sizeOf_spec]; omega
    · simp only [List.cons.sizeOf_spec]; omega
    · simp only [List.cons.sizeOf_spec]; omega
    · simp only [List.cons.sizeOf_spec]; omega
    · simp only [List.cons.sizeOf_spec]; omega
    · exact size_of_mem_captureBlocks template.property
    · have := sizeOf_drop_le (count + 1) ns
      simp only [List.cons.sizeOf_spec]
      omega
    · simp only [List.cons.sizeOf_spec]; omega

/-- A block of a template, in the scope of a record. -/
def expandCopy (s : Scope) (k : Nat) : BlockTemplate → Traced PendingImage Node
  | .paragraph p snapshot => renderTemplate settings s k p snapshot
  | .node (.table attributes rows false) => do
    let rows ← expandTable s rows
    finishTable settings s attributes rows
  | .node n => pure n.markRendered
  termination_by template => template.size
  decreasing_by
    simp only [BlockTemplate.size, Node.table.sizeOf_spec]
    omega

/-- The rows of a table with its sections expanded, and the sections in the cells of the other
rows. -/
def expandTable (s : Scope) (rows : List Node) : Traced PendingImage (List Node) := do
  let slots ← expandRows settings s Subtype.val rows.attach
  Traced.forEach (fun slot =>
    match slot with
    | .made row => pure row
    | .kept row => expandRow s row.val) slots
  termination_by sizeOf rows
  decreasing_by exact List.sizeOf_lt_of_mem row.property

/-- A row in no section, with the sections in its cells expanded. -/
def expandRow (s : Scope) : Node → Traced PendingImage Node
  | .row attributes cells false => do
    let cells ← Traced.forEach (fun cell => expandCell s cell.val) cells.attach
    return .row attributes cells
  | n => pure n
  termination_by row => sizeOf row
  decreasing_by
    have := List.sizeOf_lt_of_mem cell.property
    simp only [Node.row.sizeOf_spec]
    omega

/-- A cell with the sections in it expanded. -/
def expandCell (s : Scope) : Node → Traced PendingImage Node
  | .cell attributes children rendered =>
    return .cell attributes (← expandBlocks s children) rendered
  | n => pure n
  termination_by cell => sizeOf cell

end

end Traced

/-! ## Runs of texts and rows -/

section Runs

variable {settings : Settings}

namespace Traced

theorem run_render (s : Scope) (t : Text) :
    (render settings s t).run = Section.render settings s.context s.isReplayed t := by
  induction hn : t.length using Nat.strongRecOn generalizing s t with
  | ind n ih =>
    rw [render, Section.render]
    simp only [run_bind, run_step]
    refine bind_congr fun _ => bind_congr fun outer => bind_congr fun outer => ?_
    split
    · rfl
    · rw [run_bind, run_mapM]
      refine congrArg (· >>= _) (congrArg (fun f => List.mapM f _) (funext fun piece => ?_))
      cases piece with
      | char ch => rfl
      | placeholder digits =>
        simp only [run_bind, run_step]
        refine bind_congr fun index => ?_
        cases (Span.find t).1.attach[index]? with
        | none => rfl
        | some x =>
          obtain ⟨span, hs⟩ := x
          dsimp only
          rw [run_bind, run_records]
          refine bind_congr fun records => ?_
          rw [run_bind, run_mapM]
          refine congrArg (· >>= _) (congrArg (fun f => List.mapM f _) (funext fun x => ?_))
          exact ih _ (hn ▸ Span.length_body_of_mem_find hs) (s.within x.1 x.2) span.body rfl

theorem run_renderParagraph (s : Scope) (p : Paragraph) :
    (renderParagraph settings s p).run =
      Section.renderParagraph settings s.context s.isReplayed p := by
  unfold renderParagraph Section.renderParagraph
  rw [run_here, run_bind, run_render]
  rfl

theorem run_renderRow {s : Scope} (hs : s.isReplayed) (original : Option Node) (snapshot : RowSnapshot) :
    (renderRow settings s original snapshot).run =
      Section.renderRow settings s.context original snapshot := by
  have htexts : (snapshot.cells.mapM fun cell => render settings s cell.text).run =
      snapshot.cells.mapM fun cell => Section.render settings s.context true cell.text := by
    rw [run_mapM]
    refine congrArg (fun f => List.mapM f _) (funext fun cell => ?_)
    rw [run_render, hs]
  unfold renderRow Section.renderRow
  dsimp only
  rw [run_bind, run_claimed]
  cases original with
  | some row =>
    dsimp only
    rw [run_bind, htexts]
    rfl
  | none =>
    dsimp only
    rw [run_bind, htexts]
    rfl

theorem run_renderRows (s : Scope) (opener : Marker) (closer : Option Marker) (rows : List Node) :
    (renderRows settings s opener closer rows).run =
      Section.renderRows settings s.context s.isReplayed opener closer rows := by
  unfold renderRows Section.renderRows
  rw [run_bind, run_records]
  refine bind_congr fun records => ?_
  dsimp only
  rw [run_bind, run_mapM]
  refine congrArg (· >>= _) (congrArg (fun f => List.mapM f _) (funext fun x => ?_))
  rw [run_shifted, run_forEach]
  refine congrArg (fun f => (Merging.forEach f _).shifted _) (funext fun template => ?_)
  exact run_renderRow rfl _ _

theorem run_expandRows {α : Type} (s : Scope) (node : α → Node) (rows : List α) :
    (expandRows settings s node rows).run =
      Section.expandRows settings s.context s.isReplayed node rows := by
  induction hn : rows.length using Nat.strongRecOn generalizing rows with
  | ind n ih =>
    cases rows with
    | nil =>
      rw [expandRows, Section.expandRows]
      rfl
    | cons r rs =>
      have hlt : ∀ us : List α, us.length ≤ rs.length → us.length < n := by
        intro us hle
        rw [← hn]
        exact Nat.lt_succ_of_le hle
      rw [expandRows, Section.expandRows]
      cases rowOpener? (node r) with
      | none =>
        dsimp only
        rw [run_bind, run_shifted, ih _ (hlt rs (Nat.le_refl _)) rs rfl]
        rfl
      | some opener =>
        dsimp only
        rw [run_bind, run_step]
        refine bind_congr fun x => ?_
        rw [run_bind, run_renderRows]
        refine bind_congr fun made => ?_
        rw [run_bind, run_shifted, ih _ (hlt (rs.drop x.1) (by simp)) _ rfl]
        rfl

/-! ## Runs of blocks -/

theorem run_renderTemplate {s : Scope} (hs : s.isReplayed) (k : Nat) (p : Paragraph)
    (snapshot : ParagraphSnapshot) :
    (renderTemplate settings s k p snapshot).run =
      Section.renderTemplate settings s.context k p snapshot := by
  unfold renderTemplate Section.renderTemplate
  dsimp only
  rw [run_bind, run_here, run_bind, run_render, hs]
  rfl

mutual

theorem run_rewriteOpenIn (f : Paragraph → Traced PendingImage Paragraph) :
    ∀ (level : Node.Level) (n : Node),
      (rewriteOpenIn f level n).run = Node.rewriteOpenIn (fun p => (f p).run) level n
  | .blocks, .paragraph p false => by
    simp only [rewriteOpenIn, Node.rewriteOpenIn]
    rfl
  | .blocks, .table attributes rows false => by
    simp only [rewriteOpenIn, Node.rewriteOpenIn]
    rw [run_bind, run_rewriteOpen]
    rfl
  | .rows, .row attributes cells false => by
    simp only [rewriteOpenIn, Node.rewriteOpenIn]
    rw [run_bind, run_rewriteOpen]
    rfl
  | .cells, .cell attributes children rendered => by
    simp only [rewriteOpenIn, Node.rewriteOpenIn]
    rw [run_bind, run_rewriteOpen]
    rfl
  | .blocks, .paragraph _ true | .blocks, .table _ _ true | .rows, .row _ _ true
  | .blocks, .row .. | .blocks, .cell .. | .blocks, .pageBreak _ | .blocks, .verbatim _
  | .rows, .paragraph .. | .rows, .table .. | .rows, .cell .. | .rows, .pageBreak _
  | .rows, .verbatim _ | .cells, .paragraph .. | .cells, .table .. | .cells, .row ..
  | .cells, .pageBreak _ | .cells, .verbatim _ => by
    simp only [rewriteOpenIn, Node.rewriteOpenIn]
    rfl

theorem run_rewriteOpen (f : Paragraph → Traced PendingImage Paragraph) :
    ∀ (level : Node.Level) (index : Nat) (ns : List Node),
      (rewriteOpen f level index ns).run = Node.rewriteOpen (fun p => (f p).run) level index ns
  | level, index, [] => by
    rw [rewriteOpen, Node.rewriteOpen]
    rfl
  | level, index, n :: ns => by
    rw [rewriteOpen, Node.rewriteOpen, run_bind, run_under, run_rewriteOpenIn]
    refine bind_congr fun m => ?_
    rw [run_bind, run_rewriteOpen]
    rfl

end

theorem run_finishTable {s : Scope} (hs : s.isReplayed) (attributes : Text) (rows : List Node) :
    (finishTable settings s attributes rows).run =
      Section.finishTable settings s.context attributes rows := by
  have hparagraph : (fun p => (renderParagraph settings s p).run) =
      Section.renderParagraph settings s.context true := by
    funext p
    rw [run_renderParagraph, hs]
  unfold finishTable Section.finishTable
  rw [run_bind, run_rewriteOpen, hparagraph]
  rfl

mutual

/-- **The traced walk runs as the walk itself.** -/
theorem run_expandBlocks (s : Scope) : ∀ nodes : List Node,
    (expandBlocks settings s nodes).run = Section.expandBlocks settings s.context s.isReplayed nodes
  | [] => by
    rw [expandBlocks, Section.expandBlocks]
    rfl
  | .table attributes rows false :: ns => by
    rw [expandBlocks, Section.expandBlocks, run_followedBy, run_expandBlocks s ns, run_bind, run_under,
      run_expandTable s rows]
    rfl
  | .paragraph p false :: ns => by
    have hns := run_expandBlocks s ns
    rw [expandBlocks, Section.expandBlocks]
    cases ho : firstOpener? p.text with
    | none =>
      dsimp only
      rw [run_followedBy, hns]
      rfl
    | some opener =>
      dsimp only
      cases hs : blockSection? opener (.paragraph p :: ns) with
      | none =>
        dsimp only
        rw [run_bind, run_followedBy, hns]
        rfl
      | some r =>
        obtain ⟨count, closer⟩ := r
        cases count with
        | zero =>
          dsimp only
          rw [run_followedBy, hns, run_bind, run_under, run_renderParagraph]
          rfl
        | succ count =>
          dsimp only
          rw [run_followedBy, run_expandBlocks s (ns.drop (count + 1)), run_bind, run_records]
          refine congrArg (fun x => Merging.followedBy x _) (bind_congr fun records => ?_)
          rw [run_bind, run_mapM]
          refine congrArg (· >>= _) (congrArg (fun f => List.mapM f _) (funext fun x => ?_))
          rw [run_shifted, run_forEach]
          refine congrArg (fun f => (Merging.forEach f _).shifted _) (funext fun template => ?_)
          exact run_expandCopy (s := s.within x.1 x.2) rfl x.2 template.val
  | .paragraph p true :: ns | .table attributes rows true :: ns
  | .row attributes cells rendered :: ns | .cell attributes children rendered :: ns
  | .pageBreak attributes :: ns | .verbatim xml :: ns => by
    rw [expandBlocks, Section.expandBlocks, run_followedBy, run_expandBlocks s ns]
    · rfl
    all_goals simp
  termination_by nodes => sizeOf nodes
  decreasing_by
    · simp only [List.cons.sizeOf_spec]; omega
    · simp only [List.cons.sizeOf_spec, Node.table.sizeOf_spec]; omega
    · simp only [List.cons.sizeOf_spec]; omega
    · have := sizeOf_drop_le (count + 1) ns
      simp only [List.cons.sizeOf_spec]
      omega
    · exact size_of_mem_captureBlocks template.property
    all_goals
      simp only [List.cons.sizeOf_spec]
      omega

theorem run_expandCopy {s : Scope} (hs : s.isReplayed) (k : Nat) : ∀ template : BlockTemplate,
    (expandCopy settings s k template).run = Section.expandCopy settings s.context k template
  | .paragraph p snapshot => by
    rw [expandCopy, Section.expandCopy]
    exact run_renderTemplate hs k p snapshot
  | .node (.table attributes rows false) => by
    rw [expandCopy, Section.expandCopy, run_bind, run_expandTable s rows, hs]
    exact bind_congr fun rows' => run_finishTable hs attributes rows'
  | .node (.table attributes rows true) | .node (.paragraph p rendered)
  | .node (.row attributes cells rendered) | .node (.cell attributes children rendered)
  | .node (.pageBreak attributes) | .node (.verbatim xml) => by
    rw [expandCopy, Section.expandCopy]
    · rfl
    all_goals simp
  termination_by template => template.size
  decreasing_by
    simp only [BlockTemplate.size, Node.table.sizeOf_spec]
    omega

theorem run_expandTable (s : Scope) (rows : List Node) :
    (expandTable settings s rows).run = Section.expandTable settings s.context s.isReplayed rows := by
  rw [expandTable, Section.expandTable, run_bind, run_expandRows]
  refine bind_congr fun slots => ?_
  rw [run_forEach]
  refine congrArg (fun f => Merging.forEach f _) (funext fun slot => ?_)
  cases slot with
  | made row => rfl
  | kept row => exact run_expandRow s row.val
  termination_by sizeOf rows
  decreasing_by exact List.sizeOf_lt_of_mem row.property

theorem run_expandRow (s : Scope) : ∀ row : Node,
    (expandRow settings s row).run = Section.expandRow settings s.context s.isReplayed row
  | .row attributes cells false => by
    rw [expandRow, Section.expandRow, run_bind, run_forEach]
    refine congrArg (· >>= _) (congrArg (fun f => Merging.forEach f _) (funext fun cell => ?_))
    exact run_expandCell s cell.val
  | .row attributes cells true | .paragraph p rendered | .table attributes rows rendered
  | .cell attributes children rendered | .pageBreak attributes | .verbatim xml => by
    rw [expandRow, Section.expandRow]
    · rfl
    all_goals simp
  termination_by row => sizeOf row
  decreasing_by
    have := List.sizeOf_lt_of_mem cell.property
    simp only [Node.row.sizeOf_spec]
    omega

theorem run_expandCell (s : Scope) : ∀ cell : Node,
    (expandCell settings s cell).run = Section.expandCell settings s.context s.isReplayed cell
  | .cell attributes children rendered => by
    rw [expandCell, Section.expandCell, run_bind, run_expandBlocks s children]
    rfl
  | .row attributes cells rendered | .paragraph p rendered | .table attributes rows rendered
  | .pageBreak attributes | .verbatim xml => by
    rw [expandCell, Section.expandCell]
    · rfl
    all_goals simp
  termination_by cell => sizeOf cell

end

end Traced

/-! ## Collections in replayed records -/

/-- How a run binds a section that may look into a record only: to the list that the record holds under
the section's name, if it has items. If there is none, the run ends with an error that says what there
is; and it ends if the name cannot be looked up in the record. -/
inductive BoundAlone (run : Merging PendingImage (List Node)) (b : Binding) (record : Record) : Prop
  | list {v : Value} {items : List Value} :
    (Value.record record).resolve b.opener.argument = .ok v → v.items? = some items → items ≠ [] →
    b.outcome = .ok items → BoundAlone run b record
  | lacking {v : Value} :
    (Value.record record).resolve b.opener.argument = .ok v →
    (∀ items, v.items? = some items → items = []) →
    run.Fails (.missingSection b.opener.label (lackOf [v] true)) → BoundAlone run b record
  | fault {f : Fault} :
    (Value.record record).resolve b.opener.argument = .error f → run.Fails (.fault f) →
    BoundAlone run b record

theorem boundAlone_of_mem {walk : Traced PendingImage (List Node)} {b : Binding}
    (hb : b ∈ walk.bindings) {record : Record} (hr : b.record? = some record) :
    BoundAlone walk.run b record := by
  have hrecord : b.scope.context.record = record := by
    unfold Binding.record? at hr
    split at hr
    · cases hr
    · exact Scope.record_context hr
  have houtcome : b.outcome = bound b.opener b.scope.context true := by
    rw [Binding.outcome, hr]
    rfl
  rw [bound_alone, hrecord] at houtcome
  cases hv : (Value.record record).resolve b.opener.argument with
  | error f =>
    rw [hv] at houtcome
    exact .fault hv (walk.ends b hb _ houtcome)
  | ok v =>
    rw [hv] at houtcome
    dsimp only at houtcome
    cases hrecords : records? v with
    | none =>
      rw [hrecords] at houtcome
      exact .lacking hv (records?_eq_none_iff.1 hrecords) (walk.ends b hb _ houtcome)
    | some items =>
      rw [hrecords] at houtcome
      obtain ⟨hitems, hne⟩ := records?_eq_some_iff.1 hrecords
      exact .list hv hitems hne houtcome

/-- **A collection in a replayed record is bound in that record alone.** The sections that the walk over
blocks binds are those of the traced walk. Each of them that is over a collection, and lies in a replayed
record, is bound to the list of that record, or the walk fails. -/
theorem expandBlocks_bindings (settings : Settings) (c : Context) (nested : Bool) (nodes : List Node) :
    (Traced.expandBlocks settings (.start c nested) nodes).run = expandBlocks settings c nested nodes ∧
    ∀ b ∈ (Traced.expandBlocks settings (.start c nested) nodes).bindings,
      b.opener.fromSource = false → ∀ record, b.scope.replayed? = some record →
        b.scope.context.record = record ∧
          BoundAlone (expandBlocks settings c nested nodes) b record := by
  have hrun : (Traced.expandBlocks settings (.start c nested) nodes).run =
      expandBlocks settings c nested nodes := by
    rw [Traced.run_expandBlocks, Scope.isReplayed_start]
    rfl
  refine ⟨hrun, fun b hb hsource record hrecord => ⟨Scope.record_context hrecord, ?_⟩⟩
  have hr : b.record? = some record := by
    rw [Binding.record?, hsource]
    exact hrecord
  have hbound := boundAlone_of_mem hb hr
  rwa [hrun] at hbound

/-- A section inside another one. -/
def labels : List Node :=
  [Node.ofText (Marker.enclose "#Items" ++ Marker.enclose "#Tags" ++ Marker.enclose "value" ++
    Marker.enclose "/Tags" ++ Marker.enclose "/Items")]

/-- Two items, one of them without tags, and tags that belong to none. -/
def tagged : Context where
  data := [("Items", .list [.record [("Tags", .list [.text "new"])], .record []]),
    ("Tags", .list [.text "old"])]

/-- The tags that belong to no item are not taken for those of the second one: the run ends there. -/
theorem expandBlocks_labels :
    (Traced.expandBlocks {} (.start tagged false) labels).bindings.map
        (fun b => (b.opener.label, b.outcome.toOption.map List.length)) =
      [("Items".toList, some 2), ("Tags".toList, some 1), ("Tags".toList, none)] ∧
    ∀ b ∈ (Traced.expandBlocks {} (.start tagged false) labels).bindings,
      b.opener.label = "Tags".toList → ∃ record, b.scope.replayed? = some record ∧
        BoundAlone (expandBlocks {} tagged false labels) b record := by
  have hscopes : (Traced.expandBlocks {} (.start tagged false) labels).bindings.all (fun b =>
      b.opener.label != "Tags".toList || (b.scope.replayed?.isSome && !b.opener.fromSource)) := by
    decide +kernel
  refine ⟨by decide +kernel, fun b hb hlabel => ?_⟩
  have hscope := List.all_eq_true.1 hscopes b hb
  simp only [hlabel, bne_self_eq_false, Bool.false_or, Bool.and_eq_true, Option.isSome_iff_exists,
    Bool.not_eq_true'] at hscope
  obtain ⟨⟨record, hrecord⟩, hsource⟩ := hscope
  exact ⟨record, hrecord,
    ((expandBlocks_bindings {} tagged false labels).2 b hb hsource record hrecord).2⟩

/-- A list cannot be looked up by a raised digit, so neither can the section be bound. -/
example :
    (match expandBlocks {} { data := [("Items", .list [.record [("A", .list [.int 1])]])] } false
        [Node.ofText (Marker.enclose "#Items" ++ Marker.enclose "#A.²" ++ Marker.enclose "/A.²" ++
          Marker.enclose "/Items")] with
      | Except.ok _ => none
      | Except.error e => some e) = some (.fault .oddIndex) := by
  decide +kernel

end Runs

end MailMerge.Section
