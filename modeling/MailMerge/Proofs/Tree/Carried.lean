import MailMerge.Section.Template

/-!
# What nodes carry along

Nodes and runs carry texts that nothing looks into: their properties, their styles, and whatever is not read.
A merge makes no such text anew. What is rebuilt takes its properties from what was captured, or has none.

**`Node.Carries`**: all texts that are carried in a node have a property.

The lemmas say of each way to change or to rebuild a node that it carries nothing else; the empty text has to
have the property, since it stands for missing properties.
-/

namespace MailMerge

variable {P : Text → Prop}

/-! ## Paragraphs -/

/-- What the run carries beside its text has the property. -/
structure Run.Carries (P : Text → Prop) (r : Run) : Prop where
  style : P r.style
  raw : ∀ xml ∈ r.raw, P xml

/-- What the paragraph carries beside its text has the property. -/
structure Paragraph.Carries (P : Text → Prop) (p : Paragraph) : Prop where
  attributes : P p.attributes
  runs : ∀ r ∈ p.runs, r.Carries P

namespace Paragraph

variable {p : Paragraph} {attributes style : Text}

theorem carries_empty (hnil : P []) : Carries P {} :=
  ⟨hnil, by simp⟩

theorem Carries.runStyle (hnil : P []) (h : p.Carries P) : P p.runStyle := by
  unfold Paragraph.runStyle
  cases hr : p.runs.find? fun r => r.raw.isNone with
  | none => exact hnil
  | some r => exact (h.runs r (List.mem_of_find?_eq_some hr)).style

theorem carries_ofText (t : Text) (ha : P attributes) (hs : P style) :
    (ofText t attributes style).Carries P := by
  refine ⟨ha, ?_⟩
  intro r hr
  unfold ofText at hr
  dsimp only at hr
  split at hr
  · cases hr
  · obtain rfl := List.mem_singleton.1 hr
    exact ⟨hs, nofun⟩

/-- Only the runs with raw content are kept. -/
theorem Carries.restyle (h : p.Carries P) (t : Text) (hs : P style) : (p.restyle t style).Carries P := by
  refine ⟨h.attributes, ?_⟩
  intro r hr
  rcases List.mem_append.1 hr with hr | hr
  · rcases List.mem_append.1 hr with hr | hr
    · exact h.runs r ((List.takeWhile_sublist _).subset hr)
    · exact (carries_ofText t h.attributes hs).runs r hr
  · exact h.runs r ((List.dropWhile_sublist _).subset (List.mem_filter.1 hr).1)

theorem Carries.setText (hnil : P []) (h : p.Carries P) (t : Text) : (p.setText t).Carries P := by
  unfold Paragraph.setText
  split
  · exact h
  · exact h.restyle t (h.runStyle hnil)

end Paragraph

/-! ## Nodes -/

/-- All that is carried in the node has the property. -/
inductive Node.Carries (P : Text → Prop) : Node → Prop
  | paragraph {p : Paragraph} {rendered : Bool} : p.Carries P → Carries P (.paragraph p rendered)
  | table {attributes : Text} {rows : List Node} {rendered : Bool} :
    P attributes → (∀ n ∈ rows, Carries P n) → Carries P (.table attributes rows rendered)
  | row {attributes : Text} {cells : List Node} {rendered : Bool} :
    P attributes → (∀ n ∈ cells, Carries P n) → Carries P (.row attributes cells rendered)
  | cell {attributes : Text} {children : List Node} {rendered : Bool} :
    P attributes → (∀ n ∈ children, Carries P n) → Carries P (.cell attributes children rendered)
  | pageBreak {attributes : Text} : P attributes → Carries P (.pageBreak attributes)
  | verbatim {xml : Text} : P xml → Carries P (.verbatim xml)

namespace Node

variable {n : Node} {ns : List Node}

theorem carries_paragraph {p : Paragraph} {rendered : Bool} :
    Carries P (.paragraph p rendered) ↔ p.Carries P :=
  ⟨fun h => by cases h; assumption, .paragraph⟩

namespace Carries

theorem attributes (hnil : P []) (h : n.Carries P) : P n.attributes := by
  cases h with
  | paragraph hp => exact hp.attributes
  | table ha _ => exact ha
  | row ha _ => exact ha
  | cell ha _ => exact ha
  | pageBreak ha => exact ha
  | verbatim _ => exact hnil

theorem children (h : n.Carries P) : ∀ m ∈ n.children, m.Carries P := by
  cases h with
  | table _ hns => exact hns
  | row _ hns => exact hns
  | cell _ hns => exact hns
  | _ => nofun

theorem withChildren (h : n.Carries P) (hns : ∀ m ∈ ns, m.Carries P) : (n.withChildren ns).Carries P := by
  cases h with
  | paragraph hp => exact .paragraph hp
  | table ha _ => exact .table ha hns
  | row ha _ => exact .row ha hns
  | cell ha _ => exact .cell ha hns
  | pageBreak ha => exact .pageBreak ha
  | verbatim hx => exact .verbatim hx

theorem markRendered (h : n.Carries P) : n.markRendered.Carries P := by
  cases h with
  | paragraph hp => exact .paragraph hp
  | table ha hns => exact .table ha hns
  | row ha hns => exact .row ha hns
  | cell ha hns => exact .cell ha hns
  | pageBreak ha => exact .pageBreak ha
  | verbatim hx => exact .verbatim hx

end Carries

/-- The first paragraph among nodes, or an empty one. -/
theorem carries_headD (hnil : P []) (h : ∀ n ∈ ns, n.Carries P) : ((paragraphsOf ns).headD {}).Carries P := by
  cases hp : paragraphsOf ns with
  | nil => exact Paragraph.carries_empty hnil
  | cons p ps =>
    have hmem : p ∈ paragraphsOf ns := hp ▸ List.mem_cons_self
    obtain ⟨n, hn, hpn⟩ := List.mem_filterMap.1 hmem
    cases n with
    | paragraph q rendered =>
      obtain rfl := Option.some.inj hpn
      exact carries_paragraph.1 (h _ hn)
    | _ => cases hpn

/-! ## Writing into cells -/

theorem carries_setLines (hnil : P []) (h : ∀ n ∈ ns, n.Carries P) (ts : List Text) :
    ∀ n ∈ setLines ns ts, n.Carries P := by
  fun_induction setLines ns ts with
  | case1 p rendered ns t ts ih =>
    rw [List.forall_mem_cons] at h ⊢
    exact ⟨.paragraph ((carries_paragraph.1 h.1).setText hnil t), ih h.2⟩
  | case2 n ns ts hne ih =>
    rw [List.forall_mem_cons] at h ⊢
    exact ⟨h.1, ih h.2⟩
  | case3 => nofun

theorem carries_rebuildLines (hnil : P []) (h : ∀ n ∈ ns, n.Carries P) (ts : List Text) :
    ∀ n ∈ rebuildLines ns ts, n.Carries P := by
  have hfirst := carries_headD hnil h
  intro n hn
  rcases List.mem_append.1 hn with hn | hn
  · obtain ⟨t, -, rfl⟩ := List.mem_map.1 hn
    exact .paragraph (Paragraph.carries_ofText t hfirst.attributes (hfirst.runStyle hnil))
  · exact h n (List.mem_filter.1 hn).1

theorem carries_setCellText (hnil : P []) (h : ∀ n ∈ ns, n.Carries P) (t : Text) :
    ∀ n ∈ setCellText ns t, n.Carries P := by
  unfold setCellText
  dsimp only
  split
  · exact carries_setLines hnil h _
  · exact carries_rebuildLines hnil h _

theorem Carries.setText (hnil : P []) (h : n.Carries P) (t : Text) : (n.setText t).Carries P := by
  cases h with
  | cell ha hns => exact .cell ha (carries_setCellText hnil hns t)
  | paragraph hp => exact .paragraph hp
  | table ha hns => exact .table ha hns
  | row ha hns => exact .row ha hns
  | pageBreak ha => exact .pageBreak ha
  | verbatim hx => exact .verbatim hx

theorem carries_writeCells (hnil : P []) (h : ∀ n ∈ ns, n.Carries P) (ts : List Text) :
    ∀ n ∈ writeRow.writeCells ns ts, n.Carries P := by
  fun_induction writeRow.writeCells ns ts with
  | case1 c cells t ts ih =>
    rw [List.forall_mem_cons] at h ⊢
    refine ⟨?_, ih h.2⟩
    split
    · exact h.1
    · exact h.1.setText hnil t
  | case2 => exact h
  | case3 => nofun

theorem Carries.writeRow (hnil : P []) (h : n.Carries P) (ts : List Text) : (n.writeRow ts).Carries P :=
  h.withChildren (carries_writeCells hnil h.children ts)

end Node

/-! ## What is captured -/

/-- What is kept of a cell beside its text has the property. -/
structure CellSnapshot.Carries (P : Text → Prop) (s : CellSnapshot) : Prop where
  attributes : P s.attributes
  paragraphAttributes : P s.paragraphAttributes
  runStyle : P s.runStyle

/-- What is kept of a row beside its texts has the property. -/
structure RowSnapshot.Carries (P : Text → Prop) (s : RowSnapshot) : Prop where
  attributes : P s.attributes
  cells : ∀ cell ∈ s.cells, cell.Carries P

/-- What is kept of a paragraph beside its text has the property. -/
structure ParagraphSnapshot.Carries (P : Text → Prop) (s : ParagraphSnapshot) : Prop where
  attributes : P s.attributes
  runStyle : P s.runStyle

theorem Paragraph.Carries.capture (hnil : P []) {p : Paragraph} (h : p.Carries P) : p.capture.Carries P :=
  ⟨h.attributes, h.runStyle hnil⟩

theorem ParagraphSnapshot.Carries.build {s : ParagraphSnapshot} (h : s.Carries P) (t : Text) :
    (s.build t).Carries P :=
  Paragraph.carries_ofText t h.attributes h.runStyle

theorem Node.Carries.captureCell (hnil : P []) {n : Node} (h : n.Carries P) : n.captureCell.Carries P :=
  have hfirst := Node.carries_headD hnil h.children
  ⟨h.attributes hnil, hfirst.attributes, hfirst.runStyle hnil⟩

theorem Node.Carries.captureRow (hnil : P []) {n : Node} (h : n.Carries P) : n.captureRow.Carries P := by
  refine ⟨h.attributes hnil, ?_⟩
  intro cell hcell
  obtain ⟨m, hm, rfl⟩ := List.mem_map.1 hcell
  exact (h.children m hm).captureCell hnil

theorem CellSnapshot.Carries.build {s : CellSnapshot} (h : s.Carries P) (t : Text) :
    (s.build t).Carries P := by
  refine .cell h.attributes ?_
  intro n hn
  obtain ⟨line, -, rfl⟩ := List.mem_map.1 hn
  exact .paragraph (Paragraph.carries_ofText line h.paragraphAttributes h.runStyle)

theorem RowSnapshot.Carries.build {s : RowSnapshot} (h : s.Carries P) (ts : List Text) :
    (s.build ts).Carries P := by
  refine .row h.attributes ?_
  intro n hn
  obtain ⟨⟨cell, t⟩, hz, rfl⟩ := List.mem_map.1 hn
  exact (h.cells cell (List.of_mem_zip hz).1).build t

namespace Section

/-! ## Templates -/

theorem carries_changeFirstCell {marker : Text} {change : Text → Text} {cells : List CellSnapshot}
    (h : ∀ cell ∈ cells, cell.Carries P) : ∀ cell ∈ changeFirstCell marker change cells, cell.Carries P := by
  induction cells with
  | nil => exact h
  | cons c cells ih =>
    rw [List.forall_mem_cons] at h
    rw [changeFirstCell]
    split
    · exact List.forall_mem_cons.2 ⟨⟨h.1.attributes, h.1.paragraphAttributes, h.1.runStyle⟩, h.2⟩
    · exact List.forall_mem_cons.2 ⟨h.1, ih h.2⟩

theorem carries_stripFirst {marker : Text} {s : RowSnapshot} (h : s.Carries P) :
    (RowSnapshot.stripFirst marker s).Carries P :=
  ⟨h.attributes, carries_changeFirstCell h.cells⟩

theorem carries_stripLast {marker : Text} {s : RowSnapshot} (h : s.Carries P) :
    (RowSnapshot.stripLast marker s).Carries P := by
  have hcells := @carries_changeFirstCell P marker (withoutLast marker) s.cells.reverse
    fun cell hcell => h.cells cell (List.mem_reverse.1 hcell)
  exact ⟨h.attributes, fun cell hcell => hcells cell (List.mem_reverse.1 hcell)⟩

theorem forall_modifyHead {α : Type} {Q : α → Prop} {f : α → α} {xs : List α} (hf : ∀ x, Q x → Q (f x))
    (h : ∀ x ∈ xs, Q x) : ∀ x ∈ xs.modifyHead f, Q x := by
  cases xs with
  | nil => exact h
  | cons x xs =>
    rw [List.forall_mem_cons] at h
    exact List.forall_mem_cons.2 ⟨hf x h.1, h.2⟩

/-- **The rows of a template carry what the rows carry that they were captured from.** -/
theorem carries_captureRows (hnil : P []) (opener : Marker) (closer : Option Marker) {rows : List Node}
    (h : ∀ row ∈ rows, row.Carries P) : ∀ s ∈ captureRows opener closer rows, s.Carries P := by
  have hopened : ∀ s ∈ (rows.map Node.captureRow).modifyHead (RowSnapshot.stripFirst opener.text),
      s.Carries P := by
    refine forall_modifyHead (fun s hs => carries_stripFirst hs) ?_
    intro s hs
    obtain ⟨row, hrow, rfl⟩ := List.mem_map.1 hs
    exact (h row hrow).captureRow hnil
  unfold captureRows
  cases closer with
  | none => exact hopened
  | some closer =>
    intro s hs
    rw [List.mem_reverse] at hs
    refine forall_modifyHead (fun s hs => carries_stripLast hs) ?_ s hs
    intro s hs
    exact hopened s (List.mem_reverse.1 hs)

/-- What the block of a template carries beside its texts has the property. -/
def BlockTemplate.Carries (P : Text → Prop) : BlockTemplate → Prop
  | .paragraph p s => p.Carries P ∧ s.Carries P
  | .node n => n.Carries P

theorem carries_captureBlock (hnil : P []) {n : Node} (h : n.Carries P) : (captureBlock n).Carries P := by
  cases n with
  | paragraph p rendered =>
    have hp := Node.carries_paragraph.1 h
    exact ⟨hp, hp.capture hnil⟩
  | _ => exact h

theorem carries_captureBoundary (hnil : P []) {strip : Text → Text} {n : Node} (h : n.Carries P) :
    ∀ b ∈ captureBoundary strip n, b.Carries P := by
  intro b hb
  cases n with
  | paragraph p rendered =>
    have hp := Node.carries_paragraph.1 h
    unfold captureBoundary at hb
    dsimp only at hb
    split at hb
    · cases hb
    · obtain rfl := Option.some.inj hb
      exact ⟨hp, hp.attributes, hp.runStyle hnil⟩
  | _ =>
    obtain rfl := Option.some.inj hb
    exact h

/-- **The blocks of a template carry what the blocks carry that they were captured from.** -/
theorem carries_captureBlocks (hnil : P []) {opener closer : Marker} {first : Node} {between : List Node}
    {last : Option Node} (hfirst : first.Carries P) (hbetween : ∀ n ∈ between, n.Carries P)
    (hlast : ∀ n ∈ last, n.Carries P) :
    ∀ b ∈ captureBlocks opener closer first between last, b.Carries P := by
  intro b hb
  unfold captureBlocks at hb
  rw [List.mem_append, List.mem_append] at hb
  rcases hb with (hb | hb) | hb
  · exact carries_captureBoundary hnil hfirst b (Option.mem_toList.1 hb)
  · obtain ⟨n, hn, rfl⟩ := List.mem_map.1 hb
    exact carries_captureBlock hnil (hbetween n hn)
  · obtain ⟨n, hn, hbn⟩ := Option.bind_eq_some_iff.1 (Option.mem_toList.1 hb)
    exact carries_captureBoundary hnil (hlast n hn) b hbn

end Section
end MailMerge
