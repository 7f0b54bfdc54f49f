import MailMerge.Proofs.Section.Rendering
import MailMerge.Proofs.Tree.Writing
import MailMerge.Section.Expansion

/-!
# Repeated rows in two contexts

The rows of a section are captured without its markers, and what is captured is a template again. In
contexts in lockstep it is rendered to rows that are alike, and all that was captured of a row counts
as done from then on. Tables inside the cells of such a row are not captured; they are left as they
are.

**`agree_renderRow`**: a row is rendered to rows that are alike.

**`agree_expandRows`**: the sections of a table are expanded to rows that are alike.
-/

namespace MailMerge.Section

open Merging (Agree)
open Node (Alike Done Level OthersDone)

/-! ## Templates made of nodes -/

/-- When texts that a section has produced count as alike. Where the cells of a template may hold
paragraphs of several lines, both runs have to write the same. -/
structure Finish (D : Dialect) (F : Filling) where
  done : Text → Text → Prop
  /-- Each paragraph in a cell of the template is one line. -/
  oneLine : Prop
  whole {l r : Text} : Written D F l r → done l r
  lines {l r : Text} : Written D F l r → List.Forall₂ done (Text.lines l) (Text.lines r)
  same {l r : Text} : ¬ oneLine → Written D F l r → l = r ∧ ∀ a m b, l = a ++ m ++ b → done m m

/-- The rows of a table that lie in a section, from the one with its opening marker to the one with
its closing marker. -/
def repeatedRows : List Node → List Node
  | [] => []
  | r :: rs =>
    match rowOpener? r with
    | none => repeatedRows rs
    | some opener =>
      let count := ((closingText? opener ((r :: rs).map Node.text)).map (·.1)).getD 0
      r :: rs.take count ++ repeatedRows (rs.drop count)
  termination_by rows => rows.length
  decreasing_by
    · simp
    · simp only [List.length_cons, List.length_drop]
      omega

/-- The paragraphs of the tables in the cells of a row. -/
def innerParagraphs (row : Node) : List Paragraph :=
  row.children.flatMap fun cell =>
    Node.allParagraphs (cell.children.filter fun n => !n.isParagraph)

section Raw

variable {D : Dialect} {F : Filling}

mutual

/-- The node at a level is part of a template: its texts are of the dialect, nothing in it has been
rendered, and the tables in the cells of repeated rows are done already. Tables hold rows and rows
hold cells. -/
def Raw (D : Dialect) (N : Finish D F) : Level → Node → Prop
  | .blocks, .paragraph p rendered => rendered = false ∧ D.Template p.text
  | .blocks, .table _ rows rendered =>
    rendered = false ∧ AllRaw D N .rows rows ∧
      ∀ row ∈ repeatedRows rows, ∀ p ∈ innerParagraphs row, N.done p.text p.text
  | .blocks, _ => True
  | .rows, .row attributes cells rendered =>
    rendered = false ∧ D.Template (Node.row attributes cells rendered).text ∧
      AllRaw D N .cells cells
  | .cells, .cell attributes children rendered =>
    D.Template (Node.cell attributes children rendered).text ∧
      (N.oneLine → ∀ p ∈ Node.paragraphsOf children, '\n' ∉ p.text) ∧ AllRaw D N .blocks children
  | _, _ => False

/-- The nodes of a list at a level are parts of a template. -/
def AllRaw (D : Dialect) (N : Finish D F) (level : Level) : List Node → Prop
  | [] => True
  | n :: ns => Raw D N level n ∧ AllRaw D N level ns

end

variable {N : Finish D F} {level : Level}

theorem allRaw_iff {ns : List Node} : AllRaw D N level ns ↔ ∀ n ∈ ns, Raw D N level n := by
  induction ns with
  | nil => simp [AllRaw]
  | cons n ns ih => simp [AllRaw, ih]

theorem Raw.exists_row {n : Node} (h : Raw D N .rows n) :
    ∃ attributes cells, n = .row attributes cells ∧ AllRaw D N .cells cells := by
  cases n with
  | row attributes cells rendered => exact ⟨attributes, cells, by rw [h.1], h.2.2⟩
  | _ => cases h

theorem Raw.exists_cell {n : Node} (h : Raw D N .cells n) :
    ∃ attributes children rendered, n = .cell attributes children rendered ∧
      D.Template (Text.unlines (Node.linesOf children)) ∧
      (N.oneLine → ∀ p ∈ Node.paragraphsOf children, '\n' ∉ p.text) ∧
      AllRaw D N .blocks children := by
  cases n with
  | cell attributes children rendered =>
    exact ⟨attributes, children, rendered, rfl, by simpa [Node.text] using h.1, h.2⟩
  | _ => cases h

theorem Raw.template_row {n : Node} (h : Raw D N .rows n) : D.Template n.text := by
  cases n with
  | row attributes cells rendered => exact h.2.1
  | _ => cases h

theorem Raw.template_cell {n : Node} (h : Raw D N .cells n) : D.Template n.text := by
  cases n with
  | cell attributes cells rendered => exact h.1
  | _ => cases h

/-- The open paragraphs of both runs are the same template. -/
def Open (D : Dialect) (p q : Paragraph) : Prop :=
  p = q ∧ D.Template p.text

theorem exists_paragraphsAt (level : Level) {ns : List Node} {n : Node} (hn : n ∈ ns) (above : Path)
    (k : Nat) :
    ∃ i, ∀ x ∈ Node.paragraphsAt i level n, x ∈ Node.paragraphsFrom above k level ns := by
  induction ns generalizing k with
  | nil => cases hn
  | cons m ns ih =>
    rw [Node.paragraphsFrom]
    rcases List.mem_cons.1 hn with rfl | hn
    · exact ⟨above ++ [k], fun x hx => List.mem_append_left _ hx⟩
    · obtain ⟨i, hi⟩ := ih hn (k + 1)
      exact ⟨i, fun x hx => List.mem_append_right _ (hi x hx)⟩

/-- The tables in the cells of a row count as done if the paragraphs in them do. -/
theorem othersDone_of_inner {O : Paragraph → Paragraph → Prop} {K : Text → Text → Prop} {row cell : Node}
    (h : ∀ p ∈ innerParagraphs row, K p.text p.text) (hc : cell ∈ row.children) :
    OthersDone O K cell.children := by
  intro n hn hp
  have hmem : n ∈ cell.children.filter fun n => !n.isParagraph := by
    rw [List.mem_filter]
    exact ⟨hn, by simp [hp]⟩
  obtain ⟨i, hi⟩ := exists_paragraphsAt .blocks hmem [] 0
  refine Node.alike_self .blocks n i fun p hpm => ⟨rfl, h p ?_⟩
  obtain ⟨x, hx, rfl⟩ := List.mem_map.1 hpm
  exact List.mem_flatMap.2 ⟨cell, hc, List.mem_map.2 ⟨x, hi x hx, rfl⟩⟩

end Raw

/-! ## Writing into rows -/

section Writing

variable {D : Dialect} {F : Filling} {N : Finish D F} {O : Paragraph → Paragraph → Prop}
  {l r : Text} {ls rs : List Text} {cell : Node} {cells : List Node}

/-- The cell with a text written into it, if it is another one. -/
def writeCell (cell : Node) (t : Text) : Node :=
  if cell.text = t then cell else cell.setText t

/-- A cell of paragraphs of one line is always as if it were written into, unless it has none. -/
theorem writeCell_eq_setText {attributes : Text} {children : List Node} {rendered : Bool}
    (hne : Node.paragraphsOf children ≠ [])
    (h : ∀ p ∈ Node.paragraphsOf children, '\n' ∉ p.text) (t : Text) :
    writeCell (.cell attributes children rendered) t =
      (Node.cell attributes children rendered).setText t := by
  unfold writeCell
  split
  · next he =>
    rw [← he]
    have := Node.setCellText_self hne h
    simp only [Node.text, Node.setText, this]
  · rfl

theorem alike_writeCell (hc : Raw D N .cells cell) (ho : OthersDone O N.done cell.children)
    (h : Written D F l r) :
    Alike O (Done N.done) true .cells (writeCell cell l) (writeCell cell r) := by
  obtain ⟨attributes, children, rendered, rfl, ht, hline, -⟩ := hc.exists_cell
  have ho' : OthersDone O N.done children := ho
  have hset : Alike O (Done N.done) true .cells
      ((Node.cell attributes children rendered).setText l)
      ((Node.cell attributes children rendered).setText r) :=
    Node.alike_cell.2 (Node.alike_setCellText ho' (N.lines h))
  by_cases hone : N.oneLine
  · by_cases hne : Node.paragraphsOf children = []
    · -- Without paragraphs the text of the cell is empty, and so are both texts or none.
      have htext : (Node.cell attributes children rendered).text = [] := by
        simp [Node.text, Node.linesOf, hne, Text.unlines, Text.join]
      unfold writeCell
      rw [htext]
      by_cases hl : l = []
      · rw [if_pos hl.symm, if_pos (h.eq_nil_iff.1 hl).symm]
        refine Node.alike_cell.2 (List.forall₂_same.2 fun n hn => ho' n hn ?_)
        refine Node.isParagraph_eq_false_of ?_
        rintro p rendered rfl
        have : p ∈ Node.paragraphsOf children := List.mem_filterMap.2 ⟨_, hn, rfl⟩
        rw [hne] at this
        cases this
      · rw [if_neg (Ne.symm hl), if_neg fun hr => hl (h.eq_nil_iff.2 hr.symm)]
        exact hset
    · rw [writeCell_eq_setText hne (hline hone), writeCell_eq_setText hne (hline hone)]
      exact hset
  · obtain ⟨rfl, hdone⟩ := N.same hone h
    unfold writeCell
    split
    · next he =>
      -- Each paragraph of the cell is a part of what is written.
      refine Node.alike_cell.2 (List.forall₂_same.2 fun n hn => ?_)
      by_cases hp : n.isParagraph
      · cases n with
        | paragraph p rendered =>
          refine Node.alike_paragraph.2 ⟨rfl, ?_⟩
          have hmem : p.text ∈ Node.linesOf children :=
            List.mem_map.2 ⟨p, List.mem_filterMap.2 ⟨_, hn, rfl⟩, rfl⟩
          obtain ⟨a, b, hab⟩ := Text.exists_append_of_mem_join ['\n'] hmem
          refine hdone a p.text b ?_
          rw [← he, ← hab]
          simp [Node.text, Text.unlines]
        | _ => cases hp
      · exact ho' n hn (by simpa using hp)
    · exact hset

theorem alike_writeCells (hc : AllRaw D N .cells cells)
    (ho : ∀ cell ∈ cells, OthersDone O N.done cell.children) (h : List.Forall₂ (Written D F) ls rs)
    (hl : ls.length = cells.length) :
    List.Forall₂ (Alike O (Done N.done) true .cells) (Node.writeRow.writeCells cells ls)
      (Node.writeRow.writeCells cells rs) := by
  induction h generalizing cells with
  | nil =>
    obtain rfl := List.length_eq_zero_iff.1 hl.symm
    exact .nil
  | cons hw h ih =>
    cases cells with
    | nil => simp at hl
    | cons cell cells =>
      rw [List.length_cons, List.length_cons, Nat.add_right_cancel_iff] at hl
      exact .cons (alike_writeCell hc.1 (ho cell List.mem_cons_self) hw)
        (ih hc.2 (fun c hm => ho c (List.mem_cons_of_mem cell hm)) hl)

theorem alike_buildRow (s : RowSnapshot) (h : List.Forall₂ (Written D F) ls rs) :
    Alike O (Done N.done) true .rows (s.build ls) (s.build rs) := by
  unfold RowSnapshot.build
  rw [Node.alike_row]
  generalize s.cells = cells
  induction h generalizing cells with
  | nil =>
    rw [List.zip_nil_right]
    exact .nil
  | cons hw h ih =>
    cases cells with
    | nil => exact .nil
    | cons cell cells => exact .cons (Node.alike_build cell (N.lines hw)) (ih cells)

end Writing

/-! ## Markers of sections -/

section Markers

variable {D : Dialect} {F : Filling} {settings : Settings}

/-- The marker says something of the dialect, and it starts a section. -/
def Opens (D : Dialect) (m : Marker) : Prop :=
  ∃ inner, D.admits inner ∧ Text.FreeOf Marker.closing inner ∧
    (Marker.classify inner).kind = .sectionStart ∧ m = Marker.ofInner inner m.start

/-- The marker stands in one of the texts. -/
def StandsIn (texts : List Text) (m : Marker) : Prop :=
  ∃ t ∈ texts, m ∈ Marker.scan t

theorem opens_of_firstOpener? {t : Text} {m : Marker} (ht : D.Template t)
    (h : firstOpener? t = some m) : Opens D m := by
  have hm := List.mem_of_find?_eq_some h
  have hk : m.kind = .sectionStart := by simpa using List.find?_some h
  obtain ⟨inner, hi, hf, -, he⟩ := ht.of_mem_scan hm
  exact ⟨inner, hi, hf, by rw [← hk, he]; rfl, he⟩

theorem opens_of_rowOpener? {N : Finish D F} {row : Node} {m : Marker} (hr : Raw D N .rows row)
    (h : rowOpener? row = some m) : Opens D m := by
  unfold rowOpener? at h
  split at h
  · cases h
  · exact opens_of_firstOpener? hr.template_row h

theorem exists_mem_of_findCloserIn {opener closer : Marker} {depth : Int}
    {lists : List (List Marker)} {i : Nat} (h : findCloserIn opener depth lists = some (i, closer)) :
    ∃ ms ∈ lists, closer ∈ ms := by
  induction lists generalizing depth i with
  | nil => simp [findCloserIn] at h
  | cons ms rest ih =>
    rw [findCloserIn] at h
    split at h
    · next hc =>
      obtain ⟨-, rfl⟩ := Prod.mk.inj (Option.some.inj h)
      exact ⟨ms, List.mem_cons_self, mem_of_findCloser hc⟩
    · obtain ⟨⟨j, m⟩, hj, he⟩ := Option.map_eq_some_iff.1 h
      obtain ⟨-, rfl⟩ := Prod.mk.inj he
      obtain ⟨ms', hm, hc⟩ := ih hj
      exact ⟨ms', List.mem_cons_of_mem ms hm, hc⟩

theorem standsIn_of_closingText? {opener closer : Marker} {texts : List Text} {i : Nat}
    (h : closingText? opener texts = some (i, closer)) : StandsIn texts closer := by
  cases texts with
  | nil => cases h
  | cons t ts =>
    obtain ⟨ms, hm, hc⟩ := exists_mem_of_findCloserIn h
    rcases List.mem_cons.1 hm with rfl | hm
    · exact ⟨t, List.mem_cons_self, List.mem_of_mem_filter (List.mem_of_mem_filter hc)⟩
    · obtain ⟨u, hu, rfl⟩ := List.mem_map.1 hm
      exact ⟨u, List.mem_cons_of_mem t hu, List.mem_of_mem_filter hc⟩

/-- The text of a marker of templates stands between its braces. -/
theorem StandsIn.exists_text {texts : List Text} {m : Marker} (h : StandsIn texts m)
    (ht : ∀ t ∈ texts, D.Template t) :
    ∃ inner, Text.FreeOf Marker.closing inner ∧ m.text = Marker.enclose inner := by
  obtain ⟨t, hmem, hm⟩ := h
  obtain ⟨inner, -, hf, -, he⟩ := (ht t hmem).of_mem_scan hm
  exact ⟨inner, hf, by rw [he]; rfl⟩

theorem agree_records (L : Lockstep settings D F) {c c' : Context} (hs : L.scopes c c') {ι : Type}
    {opener : Marker} (ho : Opens D opener) (nested : Bool) :
    Agree (List.Forall₂ fun record record' => ∀ k, L.scopes (c.forRow record k) (c'.forRow record' k))
      (Section.records (ι := ι) settings opener c nested)
      (Section.records (ι := ι) settings opener c' nested) := by
  obtain ⟨inner, hi, -, hk, he⟩ := ho
  rw [he]
  exact L.records hs hi hk opener.start nested

end Markers

/-! ## Capturing rows -/

section Capturing

variable {D : Dialect} {F : Filling} {N : Finish D F}

/-- What is captured of the row are templates, one for each cell. -/
def Captures (D : Dialect) (s : RowSnapshot) (row : Node) : Prop :=
  s.cells.length = row.children.length ∧ ∀ cell ∈ s.cells, D.Template cell.text

theorem captures_captureRow {row : Node} (h : Raw D N .rows row) : Captures D row.captureRow row := by
  obtain ⟨attributes, cells, rfl, hc⟩ := h.exists_row
  refine ⟨List.length_map _, fun s hs => ?_⟩
  obtain ⟨cell, hm, rfl⟩ := List.mem_map.1 hs
  exact (allRaw_iff.1 hc cell hm).template_cell

theorem length_changeFirstCell (marker : Text) (change : Text → Text) (cells : List CellSnapshot) :
    (changeFirstCell marker change cells).length = cells.length := by
  induction cells with
  | nil => rfl
  | cons cell cells ih =>
    rw [changeFirstCell]
    split
    · rfl
    · rw [List.length_cons, ih, List.length_cons]

theorem template_changeFirstCell {marker : Text} {change : Text → Text} {cells : List CellSnapshot}
    (hchange : ∀ t, D.Template t → D.Template (change t)) (h : ∀ cell ∈ cells, D.Template cell.text) :
    ∀ cell ∈ changeFirstCell marker change cells, D.Template cell.text := by
  induction cells with
  | nil => exact h
  | cons cell cells ih =>
    rw [changeFirstCell]
    split
    · intro s hs
      rcases List.mem_cons.1 hs with rfl | hs
      · exact hchange _ (h cell List.mem_cons_self)
      · exact h s (List.mem_cons_of_mem cell hs)
    · intro s hs
      rcases List.mem_cons.1 hs with rfl | hs
      · exact h s List.mem_cons_self
      · exact ih (fun s' hs' => h s' (List.mem_cons_of_mem cell hs')) s hs

theorem Captures.stripFirst {s : RowSnapshot} {row : Node} {inner : Text} (h : Captures D s row)
    (hf : Text.FreeOf Marker.closing inner) :
    Captures D (RowSnapshot.stripFirst (Marker.enclose inner) s) row := by
  refine ⟨(length_changeFirstCell ..).trans h.1, ?_⟩
  exact template_changeFirstCell (fun t ht => Dialect.template_withoutFirst ht hf) h.2

theorem Captures.stripLast {s : RowSnapshot} {row : Node} {inner : Text} (h : Captures D s row)
    (hf : Text.FreeOf Marker.closing inner) :
    Captures D (RowSnapshot.stripLast (Marker.enclose inner) s) row := by
  refine ⟨?_, fun cell hc => ?_⟩
  · rw [RowSnapshot.stripLast, List.length_reverse, length_changeFirstCell, List.length_reverse]
    exact h.1
  · refine template_changeFirstCell (fun t ht => Dialect.template_withoutLast ht hf)
      (fun cell hc => ?_) cell (List.mem_reverse.1 hc)
    exact h.2 cell (List.mem_reverse.1 hc)

/-- **The rows of a section are captured as templates.** -/
theorem captures_captureRows {opener : Marker} {closer : Option Marker} {rows : List Node}
    (ho : Opens D opener)
    (hc : ∀ m ∈ closer, ∃ inner, Text.FreeOf Marker.closing inner ∧ m.text = Marker.enclose inner)
    (h : ∀ row ∈ rows, Raw D N .rows row) :
    List.Forall₂ (Captures D) (captureRows opener closer rows) rows := by
  obtain ⟨inner, -, hf, -, he⟩ := ho
  have htext : opener.text = Marker.enclose inner := by
    rw [he]
    rfl
  have hopened : List.Forall₂ (Captures D)
      ((rows.map Node.captureRow).modifyHead (RowSnapshot.stripFirst opener.text)) rows := by
    refine Merging.forall₂_modifyHead ?_ fun s row hs => ?_
    · rw [List.forall₂_map_left_iff, List.forall₂_same]
      exact fun row hr => captures_captureRow (h row hr)
    · rw [htext]
      exact hs.stripFirst hf
  unfold captureRows
  cases closer with
  | none => exact hopened
  | some closer =>
    obtain ⟨inner', hf', htext'⟩ := hc closer rfl
    have hlast := List.rel_reverse (Merging.forall₂_modifyHead (List.rel_reverse hopened)
      fun s row hs => hs.stripLast hf')
    rw [List.reverse_reverse] at hlast
    rw [← htext'] at hlast
    exact hlast

end Capturing

/-! ## Rendering rows -/

section Rows

variable {D : Dialect} {F : Filling} {N : Finish D F} {settings : Settings} {c c' : Context}

/-- What two runs make of the rows of a table: the same row was kept, or rows that are alike were
made. -/
def SlotAlike {α : Type} (D : Dialect) (N : Finish D F) : Slot α → Slot α → Prop
  | .kept r, .kept r' => r = r'
  | .made row, .made row' => Alike (Open D) (Done N.done) false .rows row row'
  | _, _ => False

/-- **A row is rendered to rows that are alike**, whether into itself or as a new one. -/
theorem agree_renderRow (L : Lockstep settings D F) (hs : L.scopes c c') {row : Node}
    (hr : Raw D N .rows row) (hi : ∀ p ∈ innerParagraphs row, N.done p.text p.text)
    {s : RowSnapshot} (hcap : Captures D s row) (first : Bool) :
    Agree (Alike (Open D) (Done N.done) false .rows)
      (renderRow settings c (if first then some row else none) s)
      (renderRow settings c' (if first then some row else none) s) := by
  obtain ⟨attributes, cells, rfl, hc⟩ := hr.exists_row
  have htexts : Agree (fun ls rs => ls.length = s.cells.length ∧ List.Forall₂ (Written D F) ls rs)
      (s.cells.mapM fun cell => render settings c true cell.text)
      (s.cells.mapM fun cell => render settings c' true cell.text) :=
    Agree.mapM_length (P := fun cell cell' => cell = cell' ∧ D.Template cell.text)
      (List.forall₂_same.2 fun cell hm => ⟨rfl, hcap.2 cell hm⟩)
      (by
        rintro cell _ ⟨rfl, ht⟩
        exact agree_render L hs true ht)
  unfold renderRow
  refine Agree.bind (R := Alike (Open D) (Done N.done) true .rows) (Agree.claimed ?_ _ _)
    fun row row' h => Merging.agree_pure (h.markRendered (by decide))
  cases first with
  | true =>
    refine htexts.bind fun ls rs h => Merging.agree_pure ?_
    exact Node.alike_row.2 (alike_writeCells hc
      (fun cell hm => othersDone_of_inner hi hm) h.2 (h.1.trans hcap.1))
  | false =>
    exact htexts.bind fun ls rs h => Merging.agree_pure (alike_buildRow s h.2)

/-- The rows of a section are rendered to rows that are alike, set by set. -/
theorem agree_renderRows (L : Lockstep settings D F) (hs : L.scopes c c') (nested : Bool)
    {opener : Marker} {closer : Option Marker} {rows : List Node} (ho : Opens D opener)
    (hc : ∀ m ∈ closer, ∃ inner, Text.FreeOf Marker.closing inner ∧ m.text = Marker.enclose inner)
    (hr : ∀ row ∈ rows, Raw D N .rows row)
    (hi : ∀ row ∈ rows, ∀ p ∈ innerParagraphs row, N.done p.text p.text) :
    Agree (List.Forall₂ (Alike (Open D) (Done N.done) false .rows))
      (renderRows settings c nested opener closer rows)
      (renderRows settings c' nested opener closer rows) := by
  have hcap := captures_captureRows ho hc hr
  have hpairs : List.Forall₂
      (fun a b : RowSnapshot × Node => a = b ∧ a.2 ∈ rows ∧ Captures D a.1 a.2)
      ((captureRows opener closer rows).zip rows) ((captureRows opener closer rows).zip rows) := by
    refine List.forall₂_same.2 fun a ha => ⟨rfl, (List.of_mem_zip ha).2, ?_⟩
    exact List.forall₂_zip hcap ha
  unfold renderRows
  refine (agree_records L hs ho nested).bind fun rs rs' hrs => ?_
  refine Agree.bind (R := List.Forall₂ (List.Forall₂ (Alike (Open D) (Done N.done) false .rows)))
    ?_ fun sets sets' h => Merging.agree_pure (List.rel_flatten h)
  refine Agree.mapM (Merging.forall₂_zipIdx hrs 0) ?_
  rintro ⟨record, k⟩ ⟨record', k'⟩ ⟨hscope, hk⟩
  obtain rfl : k = k' := hk
  refine Agree.shifted (Agree.forEach hpairs ?_) _ _
  rintro ⟨s, row⟩ _ ⟨rfl, hm, hcs⟩
  have := agree_renderRow L (hscope k) (hr row hm) (hi row hm) hcs (decide (k = 0))
  simpa using this

theorem agree_rowSection {ι : Type} {opener : Marker} {texts : List Text} :
    Agree (fun a b => a = b ∧ a.1 = ((closingText? opener texts).map (·.1)).getD 0 ∧
        ∀ m ∈ a.2, StandsIn texts m)
      (rowSection (ι := ι) opener texts) (rowSection (ι := ι) opener texts) := by
  refine Merging.agree_self fun a log h => ⟨rfl, ?_⟩
  unfold rowSection at h
  cases hc : closingText? opener texts with
  | none =>
    rw [hc] at h
    obtain ⟨rfl, -⟩ := Prod.mk.inj (Except.ok.inj h)
    exact ⟨rfl, by simp⟩
  | some p =>
    rw [hc] at h
    obtain ⟨rfl, -⟩ := Prod.mk.inj (Except.ok.inj h)
    refine ⟨rfl, fun m hm => ?_⟩
    obtain rfl : p.2 = m := by simpa using hm
    exact standsIn_of_closingText? hc

/-- The rows of a section that starts in a table: they are templates, and those of the table that lie in
sections are these and the ones farther down. -/
theorem repeatedRows_cons {α : Type} {node : α → Node} {r : α} {rs : List α}
    (hr : ∀ x ∈ r :: rs, Raw D N .rows (node x)) {opener : Marker} (ho : rowOpener? (node r) = some opener)
    {count : Nat} {closer : Option Marker}
    (hcount : count = ((closingText? opener ((r :: rs).map fun x => (node x).text)).map (·.1)).getD 0)
    (hcloser : ∀ m ∈ closer, StandsIn ((r :: rs).map fun x => (node x).text) m) :
    repeatedRows ((r :: rs).map node) =
        (r :: rs.take count).map node ++ repeatedRows ((rs.drop count).map node) ∧
      (∀ row ∈ (r :: rs.take count).map node, Raw D N .rows row) ∧
      ∀ m ∈ closer, ∃ inner, Text.FreeOf Marker.closing inner ∧ m.text = Marker.enclose inner := by
  have htexts : (node r :: rs.map node).map Node.text = (r :: rs).map fun x => (node x).text := by
    rw [← List.map_cons, List.map_map]
    rfl
  refine ⟨?_, fun row hm => ?_, fun m hm => ?_⟩
  · rw [List.map_cons, repeatedRows, ho]
    dsimp only
    rw [htexts, ← hcount, ← List.map_take, ← List.map_drop, List.map_cons]
  · obtain ⟨x, hx, rfl⟩ := List.mem_map.1 hm
    rcases List.mem_cons.1 hx with rfl | hx
    · exact hr x List.mem_cons_self
    · exact hr x (List.mem_cons_of_mem r (List.mem_of_mem_take hx))
  · refine StandsIn.exists_text (D := D) (hcloser m hm) fun t ht => ?_
    obtain ⟨x, hx, rfl⟩ := List.mem_map.1 ht
    exact (hr x hx).template_row

/-- **The sections of a table are expanded to rows that are alike.** -/
theorem agree_expandRows (L : Lockstep settings D F) (hs : L.scopes c c') (nested : Bool)
    {α : Type} (node : α → Node) {rs : List α} (hr : ∀ r ∈ rs, Raw D N .rows (node r))
    (hi : ∀ row ∈ repeatedRows (rs.map node), ∀ p ∈ innerParagraphs row, N.done p.text p.text) :
    Agree (List.Forall₂ (SlotAlike D N)) (expandRows settings c nested node rs)
      (expandRows settings c' nested node rs) := by
  induction hn : rs.length using Nat.strongRecOn generalizing rs with
  | ind n ih =>
    cases rs with
    | nil =>
      rw [expandRows, expandRows]
      exact Merging.agree_pure .nil
    | cons r rs =>
      have hlt : ∀ us : List α, us.length ≤ rs.length → us.length < n := by
        intro us hle
        rw [← hn]
        exact Nat.lt_succ_of_le hle
      rw [expandRows, expandRows]
      cases ho : rowOpener? (node r) with
      | none =>
        rw [List.map_cons, repeatedRows, ho] at hi
        refine ((ih _ (hlt rs (Nat.le_refl _)) (fun r' hm => hr r' (List.mem_cons_of_mem r hm)) hi
          rfl).shifted 1 1).bind fun slots slots' h => Merging.agree_pure (.cons rfl h)
      | some opener =>
        have hopens := opens_of_rowOpener? (hr r List.mem_cons_self) ho
        refine agree_rowSection.bind ?_
        rintro ⟨count, closer⟩ _ ⟨rfl, hcount, hcloser⟩
        obtain ⟨hrepeated, hraw, hclose⟩ := repeatedRows_cons hr ho hcount hcloser
        rw [hrepeated] at hi
        refine (agree_renderRows L hs nested hopens hclose hraw fun row hm =>
          hi row (List.mem_append_left _ hm)).bind fun made made' h => ?_
        refine ((ih _ (hlt (rs.drop count) (by simp))
          (fun r' hm => hr r' (List.mem_cons_of_mem r (List.mem_of_mem_drop hm)))
          (fun row hm => hi row (List.mem_append_right _ hm)) rfl).shifted _ _).bind
          fun slots slots' h' => Merging.agree_pure ?_
        refine List.rel_append ?_ h'
        rw [List.forall₂_map_left_iff, List.forall₂_map_right_iff]
        exact h

end Rows
end MailMerge.Section
