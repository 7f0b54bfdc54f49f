import MailMerge.Proofs.Section.Table
import MailMerge.Proofs.Tree.Standing

/-!
# Where rendered paragraphs come from

The expansion of sections renders what it finds in the template: the text of a paragraph or of a cell,
as it was captured, in the context of the records around it. What it has rendered it never renders
again. So each paragraph that it makes holds the outcome of one rendering, or a line of it.

**`every_renderRow`**: a row is made of cells that were rendered once, or left alone.

**`every_renderRows`**: so are all rows of a section.
-/

namespace MailMerge.Section

open Merging (Gives gives_bind_iff gives_pure_iff gives_mapM_iff)
open Node (Every Level)

/-! ## What can be rendered -/

/-- The node is one of a list of nodes, or it is inside one of them. -/
inductive Occurs (ns : List Node) : Node → Prop
  | top {n : Node} : n ∈ ns → Occurs ns n
  | inside {n m : Node} : Occurs ns n → m ∈ n.children → Occurs ns m

/-- A marker of the kind, as it stands in some text. -/
def IsMarker (kind : Marker.Kind) (m : Text) : Prop :=
  ∃ t, ∃ x ∈ Marker.scan t, x.kind = kind ∧ x.text = m

/-- The text, maybe without a marker that opens a section. -/
def WithoutOpener (t u : Text) : Prop :=
  u = t ∨ ∃ m, IsMarker .sectionStart m ∧ u = withoutFirst m t

/-- The text, maybe without a marker that closes a section. -/
def WithoutCloser (t u : Text) : Prop :=
  u = t ∨ ∃ m, IsMarker .sectionEnd m ∧ u = withoutLast m t

/-- What is captured of a text: at most the markers of one section are taken out. -/
def Captured (t u : Text) : Prop :=
  ∃ v, WithoutOpener t v ∧ WithoutCloser v u

theorem captured_of_withoutOpener {t u : Text} (h : WithoutOpener t u) : Captured t u :=
  ⟨u, h, .inl rfl⟩

/-- The contexts in which parts of a template are rendered: the outer one, and those of records inside
a context. The flag says whether there is a record. -/
inductive InScope (c : Context) : Bool → Context → Prop
  | outside : InScope c false c
  | record {nested : Bool} {c' : Context} : InScope c nested c' →
    ∀ (record : Value) (k : Int), InScope c true (c'.forRow record k)

/-! ## What has been rendered -/

/-- The paragraph has the text that a paragraph of the template was rendered to, or it is a line of the
text that a cell of the template was rendered to. -/
inductive RenderedOnce (settings : Settings) (c : Context) (template : List Node) (p : Paragraph) :
    Prop
  | paragraph {q : Paragraph} {rendered nested : Bool} {t : Text} {c' : Context} :
    Occurs template (.paragraph q rendered) → Captured q.text t → InScope c nested c' →
    (render settings c' nested t).Gives p.text → RenderedOnce settings c template p
  | line {row cell : Node} {t u : Text} {c' : Context} :
    Occurs template row → cell ∈ row.children → Captured cell.text t → InScope c true c' →
    (render settings c' true t).Gives u → p.text ∈ Text.lines u → RenderedOnce settings c template p

/-- The paragraph is one of the template. -/
def Kept (template : List Node) (p : Paragraph) : Prop :=
  ∃ rendered, Occurs template (.paragraph p rendered)

/-- A paragraph was rendered once or not at all. -/
def AtMostOnce (settings : Settings) (c : Context) (template : List Node) (p : Paragraph) : Prop :=
  RenderedOnce settings c template p ∨ Kept template p

/-- Where a paragraph of an expanded tree comes from: an open one is a paragraph of the template, and a
closed one was rendered at most once. -/
def Provenance (settings : Settings) (c : Context) (template : List Node) (closed : Bool)
    (p : Paragraph) : Prop :=
  if closed then AtMostOnce settings c template p else Kept template p

section Basics

variable {settings : Settings} {c : Context} {template : List Node} {closed : Bool} {level : Level}
  {n : Node}

/-- In a node of the template there are only paragraphs of the template. -/
theorem every_kept (h : Occurs template n) : Every (fun _ => Kept template) closed level n := by
  intro path p b hp
  induction path generalizing closed level n with
  | nil =>
    obtain ⟨-, rendered, rfl, -⟩ := Node.standingIn?_nil_iff.1 hp
    exact ⟨rendered, h⟩
  | cons i path ih =>
    obtain ⟨inner, ns, m, hin, hm, hp⟩ := Node.exists_of_standingIn?_cons hp
    refine ih (h.inside ?_) hp
    rw [Node.children_of_inside hin]
    exact List.mem_of_getElem? hm

theorem every_atMostOnce (h : Occurs template n) :
    Every (fun _ => AtMostOnce settings c template) closed level n :=
  (every_kept h).imp fun _ _ => .inr

theorem every_provenance (h : Occurs template n) :
    Every (Provenance settings c template) closed level n := by
  refine (every_kept h).imp fun b p hp => ?_
  unfold Provenance
  split
  · exact .inr hp
  · exact hp

theorem provenance_of_closed {b : Bool} {p : Paragraph}
    (h : b = true ∧ AtMostOnce settings c template p) : Provenance settings c template b p := by
  rw [Provenance, if_pos h.1]
  exact h.2

end Basics

/-! ## Cells -/

section Cells

variable {D : Paragraph → Prop} {closed : Bool} {t : Text} {n cell : Node} {ns cells : List Node}
  {texts : List Text}

/-- Where a text is written into a cell, a paragraph holds a line of it, and all else stays. -/
theorem mem_setLines {ts : List Text} (hl : ts.length = (Node.paragraphsOf ns).length)
    (h : n ∈ Node.setLines ns ts) :
    (n ∈ ns ∧ n.isParagraph = false) ∨ ∃ p rendered, n = .paragraph p rendered ∧ p.text ∈ ts := by
  induction ns generalizing ts with
  | nil => cases h
  | cons m ns ih =>
    by_cases hm : m.isParagraph
    · cases m with
      | paragraph p rendered =>
        cases ts with
        | nil => cases hl
        | cons t ts =>
          rcases List.mem_cons.1 h with rfl | h
          · exact .inr ⟨_, _, rfl, by rw [Paragraph.text_setText]; exact List.mem_cons_self⟩
          · rcases ih (Nat.succ.inj hl) h with ⟨hn, hp⟩ | ⟨p, r, rfl, hp⟩
            · exact .inl ⟨List.mem_cons_of_mem _ hn, hp⟩
            · exact .inr ⟨p, r, rfl, List.mem_cons_of_mem t hp⟩
      | _ => cases hm
    · have hm : m.isParagraph = false := by simpa using hm
      have hset : Node.setLines (m :: ns) ts = m :: Node.setLines ns ts := by
        cases m with
        | paragraph p rendered => cases hm
        | _ => cases ts <;> rfl
      have hl : ts.length = (Node.paragraphsOf ns).length := by
        cases m with
        | paragraph p rendered => cases hm
        | _ => exact hl
      rw [hset] at h
      rcases List.mem_cons.1 h with rfl | h
      · exact .inl ⟨List.mem_cons_self, hm⟩
      · rcases ih hl h with ⟨hn, hp⟩ | hp
        · exact .inl ⟨List.mem_cons_of_mem m hn, hp⟩
        · exact .inr hp

theorem mem_setCellText (h : n ∈ Node.setCellText ns t) :
    (n ∈ ns ∧ n.isParagraph = false) ∨
      ∃ p rendered, n = .paragraph p rendered ∧ p.text ∈ Text.lines t := by
  unfold Node.setCellText at h
  dsimp only at h
  split at h
  · next hl => exact mem_setLines hl h
  · rcases List.mem_append.1 h with h | h
    · obtain ⟨line, hline, rfl⟩ := List.mem_map.1 h
      exact .inr ⟨_, _, rfl, by rwa [Paragraph.text_ofText]⟩
    · obtain ⟨hn, hp⟩ := List.mem_filter.1 h
      exact .inl ⟨hn, by simpa using hp⟩

/-- Paragraphs with a line of the text have the property. -/
def Lines (D : Paragraph → Prop) (t : Text) : Prop :=
  ∀ p, p.text ∈ Text.lines t → D p

theorem every_setText (hcell : Every (fun _ => D) closed .cells cell) (ht : Lines D t) :
    Every (fun _ => D) closed .cells (cell.setText t) := by
  cases cell with
  | cell attributes children rendered =>
    rw [Node.every_cell] at hcell
    refine Node.every_cell.2 fun n hn => ?_
    rcases mem_setCellText hn with ⟨hn, -⟩ | ⟨p, r, rfl, hp⟩
    · exact hcell n hn
    · exact Node.every_paragraph.2 (ht p hp)
  | _ => exact hcell

theorem every_writeCells (hcells : ∀ cell ∈ cells, Every (fun _ => D) closed .cells cell)
    (ht : ∀ t ∈ texts, Lines D t) :
    ∀ cell ∈ Node.writeRow.writeCells cells texts, Every (fun _ => D) closed .cells cell := by
  induction cells generalizing texts with
  | nil => cases texts <;> exact nofun
  | cons first cells ih =>
    cases texts with
    | nil => exact hcells
    | cons t texts =>
      intro cell hc
      rcases List.mem_cons.1 hc with rfl | hc
      · split
        · exact hcells first List.mem_cons_self
        · exact every_setText (hcells first List.mem_cons_self) (ht t List.mem_cons_self)
      · exact ih (fun x hx => hcells x (List.mem_cons_of_mem first hx))
          (fun x hx => ht x (List.mem_cons_of_mem t hx)) cell hc

/-- A row that texts are written into holds lines of them beside what was there. -/
theorem every_writeRow {row : Node}
    (hrow : ∀ cell ∈ row.children, Every (fun _ => D) (closed || row.rendered) .cells cell)
    (ht : ∀ t ∈ texts, Lines D t) : Every (fun _ => D) closed .rows (row.writeRow texts) := by
  apply Node.every_rows
  intro attributes cells rendered he
  cases row with
  | row _ _ _ => exact Node.every_row.2 (every_writeCells hrow ht)
  | _ => cases he

/-- A new row holds lines of its texts only. -/
theorem every_buildRow (s : RowSnapshot) (ht : ∀ t ∈ texts, Lines D t) :
    Every (fun _ => D) closed .rows (s.build texts) := by
  refine Node.every_row.2 fun cell hc => ?_
  obtain ⟨⟨s', t⟩, hz, rfl⟩ := List.mem_map.1 hc
  refine Node.every_cell.2 fun n hn => ?_
  obtain ⟨line, hline, rfl⟩ := List.mem_map.1 hn
  refine Node.every_paragraph.2 (ht t (List.of_mem_zip hz).2 _ ?_)
  rwa [Paragraph.text_ofText]

end Cells

/-! ## Capturing rows -/

section Capturing

variable {template : List Node} {marker t : Text}

theorem exists_of_mem_modifyHead {α : Type} {f : α → α} {xs : List α} {x : α}
    (h : x ∈ xs.modifyHead f) : ∃ y ∈ xs, x = y ∨ x = f y := by
  cases xs with
  | nil => cases h
  | cons y ys =>
    rcases List.mem_cons.1 h with rfl | h
    · exact ⟨y, List.mem_cons_self, .inr rfl⟩
    · exact ⟨x, List.mem_cons_of_mem y h, .inl rfl⟩

theorem exists_of_mem_changeFirstCell {change : Text → Text} {cells : List CellSnapshot}
    {s : CellSnapshot} (h : s ∈ changeFirstCell marker change cells) :
    ∃ s' ∈ cells, s.text = s'.text ∨ s.text = change s'.text := by
  induction cells with
  | nil => cases h
  | cons first cells ih =>
    rw [changeFirstCell] at h
    split at h
    · rcases List.mem_cons.1 h with rfl | h
      · exact ⟨first, List.mem_cons_self, .inr rfl⟩
      · exact ⟨s, List.mem_cons_of_mem first h, .inl rfl⟩
    · rcases List.mem_cons.1 h with rfl | h
      · exact ⟨s, List.mem_cons_self, .inl rfl⟩
      · obtain ⟨s', hs, he⟩ := ih h
        exact ⟨s', List.mem_cons_of_mem first hs, he⟩

/-- The text is that of a cell in one of the rows, but for a change. -/
def OfCell (rows : List Node) (V : Text → Text → Prop) (t : Text) : Prop :=
  ∃ row ∈ rows, ∃ cell ∈ row.children, V cell.text t

theorem ofCell_map_captureRow {rows : List Node} {s : RowSnapshot}
    (hs : s ∈ rows.map Node.captureRow) {cell : CellSnapshot} (hc : cell ∈ s.cells) :
    OfCell rows (fun t u => u = t) cell.text := by
  obtain ⟨row, hrow, rfl⟩ := List.mem_map.1 hs
  obtain ⟨n, hn, rfl⟩ := List.mem_map.1 hc
  exact ⟨row, hrow, n, hn, rfl⟩

/-- **What is captured of a cell** is its text, at most without the markers of the section. -/
theorem ofCell_captureRows {opener : Marker} {closer : Option Marker} {rows : List Node}
    (ho : IsMarker .sectionStart opener.text) (hc : ∀ m ∈ closer, IsMarker .sectionEnd m.text)
    {s : RowSnapshot} (hs : s ∈ captureRows opener closer rows) {cell : CellSnapshot}
    (hcell : cell ∈ s.cells) : OfCell rows Captured cell.text := by
  have hopened : ∀ s ∈ (rows.map Node.captureRow).modifyHead (RowSnapshot.stripFirst opener.text),
      ∀ cell ∈ s.cells, OfCell rows WithoutOpener cell.text := by
    intro s hs cell hcell
    obtain ⟨s', hs', rfl | rfl⟩ := exists_of_mem_modifyHead hs
    · obtain ⟨row, hrow, n, hn, he⟩ := ofCell_map_captureRow hs' hcell
      exact ⟨row, hrow, n, hn, .inl he⟩
    · obtain ⟨cell', hcell', hchange⟩ := exists_of_mem_changeFirstCell hcell
      obtain ⟨row, hrow, n, hn, he⟩ := ofCell_map_captureRow hs' hcell'
      rw [he] at hchange
      refine ⟨row, hrow, n, hn, ?_⟩
      rcases hchange with he | he
      · exact .inl he
      · exact .inr ⟨opener.text, ho, he⟩
  unfold captureRows at hs
  cases closer with
  | none =>
    obtain ⟨row, hrow, n, hn, hv⟩ := hopened s hs cell hcell
    exact ⟨row, hrow, n, hn, captured_of_withoutOpener hv⟩
  | some closer =>
    obtain ⟨s', hs', he⟩ := exists_of_mem_modifyHead (List.mem_reverse.1 hs)
    rw [List.mem_reverse] at hs'
    rcases he with rfl | rfl
    · obtain ⟨row, hrow, n, hn, hv⟩ := hopened s hs' cell hcell
      exact ⟨row, hrow, n, hn, captured_of_withoutOpener hv⟩
    · obtain ⟨cell', hcell', hchange⟩ := exists_of_mem_changeFirstCell (List.mem_reverse.1 hcell)
      rw [List.mem_reverse] at hcell'
      obtain ⟨row, hrow, n, hn, hv⟩ := hopened s' hs' cell' hcell'
      refine ⟨row, hrow, n, hn, cell'.text, hv, ?_⟩
      rcases hchange with he | he
      · exact .inl he
      · exact .inr ⟨closer.text, hc closer rfl, he⟩

end Capturing

/-! ## Rendering rows -/

section Rows

variable {settings : Settings} {c c' : Context} {template : List Node} {nested : Bool}

/-- **A row is made of cells that were rendered once, or left alone.** -/
theorem every_renderRow (hc : InScope c true c') {s : RowSnapshot}
    (hs : ∀ cell ∈ s.cells, ∃ row n, Occurs template row ∧ n ∈ row.children ∧ Captured n.text cell.text)
    {original : Option Node} (ho : ∀ row ∈ original, Occurs template row) {made : Node}
    (h : (renderRow settings c' original s).Gives made) :
    Every (Provenance settings c template) false .rows made := by
  unfold renderRow at h
  obtain ⟨row, hrow, hmade⟩ := gives_bind_iff.1 h
  obtain rfl := gives_pure_iff.1 hmade
  rw [Merging.gives_claimed_iff] at hrow
  have hlines : ∀ {texts}, (s.cells.mapM fun cell => render settings c' true cell.text).Gives texts →
      ∀ t ∈ texts, Lines (AtMostOnce settings c template) t := by
    intro texts htexts t ht p hp
    obtain ⟨cell, hcell, hgives⟩ := Merging.exists_of_forall₂ (gives_mapM_iff.1 htexts).flip ht
    obtain ⟨row, n, hoccurs, hn, hcap⟩ := hs cell hcell
    exact .inl (.line hoccurs hn hcap hc hgives hp)
  have hfilled : Every (fun _ => AtMostOnce settings c template) false .rows row := by
    cases original with
    | some original =>
      obtain ⟨texts, htexts, hwritten⟩ := gives_bind_iff.1 hrow
      obtain rfl := gives_pure_iff.1 hwritten
      refine every_writeRow (fun cell hcell => ?_) (hlines htexts)
      exact every_atMostOnce ((ho original rfl).inside hcell)
    | none =>
      obtain ⟨texts, htexts, hbuilt⟩ := gives_bind_iff.1 hrow
      obtain rfl := gives_pure_iff.1 hbuilt
      exact every_buildRow s (hlines htexts)
  exact (hfilled.markRendered (by decide) false).imp fun _ _ => provenance_of_closed

/-- Each row that a section becomes is made for a record, of a row of the section as it was captured and, maybe, of
a row of the section itself. -/
theorem exists_renderRow_of_mem {opener : Marker} {closer : Option Marker} {rows made : List Node}
    (h : (renderRows settings c nested opener closer rows).Gives made) {row : Node} (hrow : row ∈ made) :
    ∃ (record : Value) (k : Nat) (original : Option Node) (s : RowSnapshot),
      s ∈ captureRows opener closer rows ∧ (∀ r ∈ original, r ∈ rows) ∧
        (renderRow settings (c.forRow record k) original s).Gives row := by
  unfold renderRows at h
  obtain ⟨records, -, h⟩ := gives_bind_iff.1 h
  obtain ⟨sets, hsets, hmade⟩ := gives_bind_iff.1 h
  obtain rfl := gives_pure_iff.1 hmade
  obtain ⟨set, hset, hmem⟩ := List.mem_flatten.1 hrow
  obtain ⟨⟨record, k⟩, -, hgives⟩ := Merging.exists_of_forall₂ (gives_mapM_iff.1 hsets).flip hset
  have hrows := Merging.gives_forEach_iff.1 (Merging.gives_shifted_iff.1 hgives)
  obtain ⟨⟨s, original⟩, hz, hrendered⟩ := Merging.exists_of_forall₂ hrows.flip hmem
  obtain ⟨hs, horiginal⟩ := List.of_mem_zip hz
  refine ⟨record, k, _, s, hs, fun r hr => ?_, hrendered⟩
  split at hr
  · obtain rfl := Option.some.inj hr
    exact horiginal
  · cases hr

/-- **So are all rows of a section.** -/
theorem every_renderRows (hc : InScope c nested c') {opener : Marker} {closer : Option Marker}
    (ho : IsMarker .sectionStart opener.text) (hcl : ∀ m ∈ closer, IsMarker .sectionEnd m.text)
    {rows made : List Node} (hrows : ∀ row ∈ rows, Occurs template row)
    (h : (renderRows settings c' nested opener closer rows).Gives made) :
    ∀ row ∈ made, Every (Provenance settings c template) false .rows row := by
  intro row hrow
  obtain ⟨record, k, original, s, hs, horiginal, hrendered⟩ := exists_renderRow_of_mem h hrow
  refine every_renderRow (hc.record record k) (fun cell hcell => ?_) (fun r hr => hrows r (horiginal r hr))
    hrendered
  obtain ⟨r, hr, n, hn, hcap⟩ := ofCell_captureRows ho hcl hs hcell
  exact ⟨r, n, hrows r hr, hn, hcap⟩

end Rows

end MailMerge.Section
