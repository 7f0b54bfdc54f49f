import MailMerge.Proofs.Docx.Runs
import Mathlib.Data.List.Basic

/-!
# Blocks as they are written

Plain blocks are paragraphs of text, page breaks and tables without properties, nested to any depth; each
cell ends in a paragraph or a page break.

**`readAs_blocks`**: plain blocks can be written, and what is written is read as elements that are the same
blocks. The proof follows the recursion of the writer: blocks, rows and cells.
-/

namespace MailMerge.Docx

open Xml

/-! ## Plain blocks -/

mutual

/-- The node is a plain block. -/
def isPlainBlock : Node → Bool
  | .paragraph p rendered => p.attributes.isEmpty && p.runs.all isPlainRun && !rendered
  | .table attributes rows rendered => attributes.isEmpty && arePlainRows rows && !rendered
  | .pageBreak attributes => attributes.isEmpty
  | _ => false

/-- The nodes are plain blocks. -/
def arePlainBlocks : List Node → Bool
  | [] => true
  | n :: ns => isPlainBlock n && arePlainBlocks ns

/-- The nodes are rows of plain cells. -/
def arePlainRows : List Node → Bool
  | [] => true
  | .row attributes cells rendered :: ns =>
    attributes.isEmpty && arePlainCells cells && !rendered && arePlainRows ns
  | _ => false

/-- The nodes are cells of plain blocks, which end in a paragraph or a page break. -/
def arePlainCells : List Node → Bool
  | [] => true
  | .cell attributes nodes rendered :: ns =>
    attributes.isEmpty && arePlainBlocks nodes && nodes.getLast?.any isWrittenAsParagraph && !rendered
      && arePlainCells ns
  | _ => false

end

variable {d : Doctype} {scope : Xml.Scope} {space : Text}

/-! ## Paragraphs -/

theorem ReadAs.flatMap {α : Type} {f : α → Text} {g : α → Element} {xs : List α}
    (h : ∀ x ∈ xs, ReadAs d scope (f x) [g x]) : ReadAs d scope (xs.flatMap f) (xs.map g) := by
  induction xs with
  | nil => exact .nil
  | cons x xs ih =>
    have ih := ih fun y hy => h y (List.mem_cons_of_mem x hy)
    exact (h x List.mem_cons_self).append ih

/-- The element of a plain paragraph. -/
def paragraphElement (space : Text) (p : Paragraph) : Element :=
  markupElement space "p" (p.runs.map fun r => markupElement space "r" (textElements space r.text))

theorem readAs_paragraph (hm : TakesMarkup d scope space) {p : Paragraph} (hp : p.attributes = [])
    (h : ∀ r ∈ p.runs, isPlainRun r) :
    ReadAs d scope (writeParagraph p) [paragraphElement space p] := by
  rw [writeParagraph, hp, List.nil_append]
  refine .markup hm ['p'] (by decide) (.flatMap ?_)
  intro r hr
  exact readAs_run hm (h r hr)

/-- **The element of a plain paragraph is read as this paragraph.** A page break has no run of text. -/
theorem paragraphNode_paragraphElement (l : Labelling) {p : Paragraph} (hp : p.attributes = [])
    (h : ∀ r ∈ p.runs, isPlainRun r) :
    paragraphNode l (paragraphElement markupSpace p) = .paragraph p := by
  have heach : ∀ r ∈ p.runs, paragraphRuns l
      (markupElement markupSpace "r" (textElements markupSpace r.text)) = [r] := by
    intro r hr
    have hname : (markupElement markupSpace "r" (textElements markupSpace r.text)).name = Tag.run := rfl
    rw [paragraphRuns, if_pos hname, runs_of_isPlainRun l (h r hr)]
  have hruns : (paragraphElement markupSpace p).children.flatMap (paragraphRuns l) = p.runs := by
    show (p.runs.map _).flatMap (paragraphRuns l) = p.runs
    rw [List.flatMap_map, List.flatMap_congr heach, List.flatMap_singleton']
  have hattributes : l.childXml (paragraphElement markupSpace p) Tag.paragraphProperties = [] := by
    refine childXml_eq_nil l ?_
    intro c hc
    obtain ⟨r, -, rfl⟩ := List.mem_map.1 hc
    show Tag.run ≠ Tag.paragraphProperties
    decide
  have htext : ¬ (p.text = [] ∧ p.runs.length = 1 ∧ holdsPageBreak (paragraphElement markupSpace p)) := by
    rintro ⟨ht, hlen, -⟩
    obtain ⟨r, hr⟩ := List.length_eq_one_iff.1 hlen
    obtain ⟨heq, hne, -⟩ := eq_of_isPlainRun (h r (by simp [hr]))
    rw [Paragraph.text, hr, heq] at ht
    exact hne (by simpa using ht)
  have hsame : ({ runs := p.runs, attributes := [] } : Paragraph) = p := by
    rw [← hp]
  rw [paragraphNode, hruns, hattributes, hsame]
  exact if_neg htext

/-! ## Page breaks -/

/-- The element of a run with nothing but a page break. -/
def breakElement (space : Text) : Element :=
  markupElement space "r" [.mk { space, base := "br" } [({ space, base := "type" }, "page")] [] [] []]

/-- The element of a page break without properties. -/
def pageBreakElement (space : Text) : Element :=
  markupElement space "p" [breakElement space]

theorem readAs_break (hm : TakesMarkup d scope space) :
    ReadAs d scope "<w:r><w:br w:type=\"page\"/></w:r>" [breakElement space] := by
  have hg := @enter?_labelled_attribute scope ['w'] space "br".toList ['w'] space "type".toList
    "page".toList (by decide) hm.label (by decide) hm.label (by decide)
  have hbreak := ReadAs.single (Enclosed.closed hm.rules (by decide) (by decide) hg) rfl
  exact .markup hm ['r'] (by decide) hbreak

theorem readAs_pageBreak (hm : TakesMarkup d scope space) :
    ReadAs d scope (writePageBreak []) [pageBreakElement space] :=
  .markup hm ['p'] (by decide) (readAs_break hm)

theorem paragraphNode_pageBreakElement (l : Labelling) :
    paragraphNode l (pageBreakElement markupSpace) = .pageBreak [] := rfl

/-! ## Blocks -/

/-- Names that are not left out leave nothing out. -/
theorem blocks_some (l : Labelling) {name : Name} {es : List Element} (h : ∀ e ∈ es, e.name ≠ name) :
    blocks l (some name) es = blocks l none es := by
  induction es with
  | nil => rw [blocks, blocks]
  | cons e es ih =>
    have hne : some name ≠ some e.name := by
      intro he
      exact h e List.mem_cons_self (Option.some.inj he).symm
    rw [blocks, blocks, if_neg hne, if_neg (by simp), ih fun x hx => h x (List.mem_cons_of_mem e hx)]

theorem block_paragraphElement (l : Labelling) {p : Paragraph} (hp : p.attributes = [])
    (h : ∀ r ∈ p.runs, isPlainRun r) : block l (paragraphElement markupSpace p) = [.paragraph p] := by
  have hnode := paragraphNode_paragraphElement l hp h
  rw [paragraphElement, markupElement, block, if_pos (by rfl)]
  rw [paragraphElement, markupElement] at hnode
  rw [hnode]

theorem block_pageBreakElement (l : Labelling) : block l (pageBreakElement markupSpace) = [.pageBreak []] := by
  have hnode := paragraphNode_pageBreakElement l
  rw [pageBreakElement, markupElement, block, if_pos (by rfl)]
  rw [pageBreakElement, markupElement] at hnode
  rw [hnode]

theorem block_table (l : Labelling) {es : List Element} {ns : List Node}
    (hnames : ∀ e ∈ es, e.name = Tag.row) (h : rows l es = ns) :
    block l (markupElement markupSpace "tbl" es) = [.table [] ns] := by
  have hproperties : ∀ name, name ≠ Tag.row → l.childXml (markupElement markupSpace "tbl" es) name = [] := by
    intro name hne
    refine childXml_eq_nil l ?_
    intro c hc he
    exact hne (he.symm.trans (hnames c hc))
  have h₁ := hproperties Tag.tableProperties (by decide)
  have h₂ := hproperties Tag.tableGrid (by decide)
  rw [markupElement] at h₁ h₂ ⊢
  rw [block, if_neg (by decide), if_pos (by rfl)]
  rw [h₁, h₂, h]
  rfl

theorem rows_markupElement (l : Labelling) {es rest : List Element} {ns : List Node}
    (hnames : ∀ e ∈ es, e.name = Tag.cell) (h : cells l es = ns) :
    rows l (markupElement markupSpace "tr" es :: rest) = .row [] ns :: rows l rest := by
  have hproperties : ∀ name, name ≠ Tag.cell → l.childXml (markupElement markupSpace "tr" es) name = [] := by
    intro name hne
    refine childXml_eq_nil l ?_
    intro c hc he
    exact hne (he.symm.trans (hnames c hc))
  have h₁ := hproperties Tag.rowExceptions (by decide)
  have h₂ := hproperties Tag.rowProperties (by decide)
  rw [markupElement] at h₁ h₂ ⊢
  rw [rows, if_pos (by rfl)]
  rw [h₁, h₂, h]
  rfl

theorem cells_markupElement (l : Labelling) {es rest : List Element} {ns : List Node}
    (hnames : ∀ e ∈ es, e.name ≠ Tag.cellProperties) (h : blocks l none es = ns) :
    cells l (markupElement markupSpace "tc" es :: rest) = .cell [] ns :: cells l rest := by
  have h₁ : l.childXml (markupElement markupSpace "tc" es) Tag.cellProperties = [] :=
    childXml_eq_nil l hnames
  rw [markupElement] at h₁ ⊢
  rw [cells, if_pos (by rfl)]
  rw [h₁, blocks_some l hnames, h]

mutual

/-- **A plain block is read as it is written.** -/
theorem readAs_block (hm : TakesMarkup d scope markupSpace) {n : Node} (h : isPlainBlock n) :
    ∃ t e, writeBlock n = .ok t ∧ ReadAs d scope t [e] ∧ e.name ≠ Tag.cellProperties ∧
      ∀ l, block l e = [n] := by
  cases n with
  | paragraph p rendered =>
    simp only [isPlainBlock, Bool.and_eq_true, List.isEmpty_iff, List.all_eq_true, Bool.not_eq_true'] at h
    obtain ⟨⟨hp, hruns⟩, rfl⟩ := h
    refine ⟨_, _, by rw [writeBlock], readAs_paragraph hm hp hruns, ?_, ?_⟩
    · show Tag.paragraph ≠ Tag.cellProperties
      decide
    · intro l
      exact block_paragraphElement l hp hruns
  | table attributes rows rendered =>
    simp only [isPlainBlock, Bool.and_eq_true, List.isEmpty_iff, Bool.not_eq_true'] at h
    obtain ⟨⟨rfl, hrows⟩, rfl⟩ := h
    obtain ⟨t, es, ht, hread, hnames, hes⟩ := readAs_rows hm hrows
    refine ⟨_, _, ?_, .markup hm "tbl" (by decide) hread, ?_, ?_⟩
    · rw [writeBlock, ht]
      rfl
    · show Tag.table ≠ Tag.cellProperties
      decide
    · intro l
      exact block_table l hnames (hes l)
  | pageBreak attributes =>
    rw [isPlainBlock, List.isEmpty_iff] at h
    subst h
    refine ⟨_, _, by rw [writeBlock], readAs_pageBreak hm, ?_, block_pageBreakElement⟩
    show Tag.paragraph ≠ Tag.cellProperties
    decide
  | row => cases h
  | cell => cases h
  | verbatim => cases h

/-- **Plain blocks are read as they are written.** -/
theorem readAs_blocks (hm : TakesMarkup d scope markupSpace) {ns : List Node} (h : arePlainBlocks ns) :
    ∃ t es, writeBlocks ns = .ok t ∧ ReadAs d scope t es ∧ (∀ e ∈ es, e.name ≠ Tag.cellProperties) ∧
      ∀ l, blocks l none es = ns := by
  cases ns with
  | nil => exact ⟨[], [], by rw [writeBlocks], .nil, by simp, fun l => by rw [blocks]⟩
  | cons n ns =>
    rw [arePlainBlocks, Bool.and_eq_true] at h
    obtain ⟨t, e, ht, hread, hname, hblock⟩ := readAs_block hm h.1
    obtain ⟨u, es, hu, hreads, hnames, hblocks⟩ := readAs_blocks hm h.2
    refine ⟨t ++ u, e :: es, ?_, hread.append hreads, ?_, ?_⟩
    · rw [writeBlocks, ht, hu]
      rfl
    · intro x hx
      rcases List.mem_cons.1 hx with rfl | hx
      · exact hname
      · exact hnames x hx
    · intro l
      rw [blocks, hblock l, hblocks l]
      rfl

/-- Plain rows are read as they are written. -/
theorem readAs_rows (hm : TakesMarkup d scope markupSpace) {ns : List Node} (h : arePlainRows ns) :
    ∃ t es, writeRows ns = .ok t ∧ ReadAs d scope t es ∧ (∀ e ∈ es, e.name = Tag.row) ∧
      ∀ l, rows l es = ns := by
  cases ns with
  | nil => exact ⟨[], [], by rw [writeRows], .nil, by simp, fun l => by rw [rows]⟩
  | cons n ns =>
    cases n with
    | row attributes cells rendered =>
      simp only [arePlainRows, Bool.and_eq_true, List.isEmpty_iff, Bool.not_eq_true'] at h
      obtain ⟨⟨⟨rfl, hcells⟩, rfl⟩, hns⟩ := h
      obtain ⟨t, es, ht, hread, hnames, hes⟩ := readAs_cells hm hcells
      obtain ⟨u, rest, hu, hreads, hrests, hrest⟩ := readAs_rows hm hns
      refine ⟨_, _, ?_, (ReadAs.markup hm "tr" (by decide) hread).append hreads, ?_, ?_⟩
      · rw [writeRows, ht, hu]
        rfl
      · intro x hx
        rcases List.mem_cons.1 hx with rfl | hx
        · rfl
        · exact hrests x hx
      · intro l
        exact (rows_markupElement l hnames (hes l)).trans (congrArg _ (hrest l))
    | paragraph => cases h
    | table => cases h
    | cell => cases h
    | pageBreak => cases h
    | verbatim => cases h

/-- Plain cells are read as they are written. -/
theorem readAs_cells (hm : TakesMarkup d scope markupSpace) {ns : List Node} (h : arePlainCells ns) :
    ∃ t es, writeCells ns = .ok t ∧ ReadAs d scope t es ∧ (∀ e ∈ es, e.name = Tag.cell) ∧
      ∀ l, cells l es = ns := by
  cases ns with
  | nil => exact ⟨[], [], by rw [writeCells], .nil, by simp, fun l => by rw [cells]⟩
  | cons n ns =>
    cases n with
    | cell attributes nodes rendered =>
      simp only [arePlainCells, Bool.and_eq_true, List.isEmpty_iff, Bool.not_eq_true'] at h
      obtain ⟨⟨⟨⟨rfl, hnodes⟩, hlast⟩, rfl⟩, hns⟩ := h
      obtain ⟨t, es, ht, hread, hnames, hes⟩ := readAs_blocks hm hnodes
      obtain ⟨u, rest, hu, hreads, hrests, hrest⟩ := readAs_cells hm hns
      refine ⟨_, _, ?_, (ReadAs.markup hm "tc" (by decide) hread).append hreads, ?_, ?_⟩
      · rw [writeCells, ht, hu, cellEnd, if_pos hlast]
        show Except.ok (element "tc".toList (t ++ []) ++ u) = _
        rw [List.append_nil]
      · intro x hx
        rcases List.mem_cons.1 hx with rfl | hx
        · rfl
        · exact hrests x hx
      · intro l
        exact (cells_markupElement l hnames (hes l)).trans (congrArg _ (hrest l))
    | paragraph => cases h
    | table => cases h
    | row => cases h
    | pageBreak => cases h
    | verbatim => cases h

end

end MailMerge.Docx
