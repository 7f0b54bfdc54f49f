import MailMerge.Proofs.Images.Accounts
import MailMerge.Proofs.Section.Blocks
import MailMerge.Proofs.Section.Provenance
import MailMerge.Proofs.Section.RowSets
import MailMerge.Proofs.Tree.Placed

/-!
# Images of expanded sections

The cells of a row are rendered one by one, and the images that they ask for are placed among all
paragraphs of the row, each in the first that has its marker. So the paragraphs of the row have the images
together: as many for each marker as the row has of it. The walk over blocks, tables, rows and cells reports
the images of what it makes. Paragraphs that it leaves open have none yet.

**`reports_renderRow`**: the images of a rendered row are those of its paragraphs, together.

**`reports_expandBlocks`**: the images of expanded blocks are those of the paragraphs that are closed.
-/

namespace MailMerge

open Merging (Reports reports_pure reports_mapM)
open Node (Accounts paragraphsAt paragraphsFrom linesOf)
open Section (pictures Drawn)

/-! ## Images of cells -/

namespace Node

variable {t : Text} {ts : List Text} {cell n : Node} {cells ns : List Node}

/-- The cell has the text, and what stands in it beside paragraphs asks for no images. -/
structure Holds (t : Text) (cell : Node) : Prop where
  isCell : cell.isCell
  text : cell.text = t
  others : ∀ n ∈ cell.children, n.isParagraph = false → ∀ x ∈ paragraphsAt [] .blocks n,
    Drawn x.2.text ∧ pictures x.2.text = []

theorem pictures_blocks {above : Path} {index : Nat}
    (ho : ∀ n ∈ ns, n.isParagraph = false → ∀ x ∈ paragraphsAt [] .blocks n,
      Drawn x.2.text ∧ pictures x.2.text = [])
    (hl : ∀ l ∈ linesOf ns, Drawn l) :
    ((paragraphsFrom above index .blocks ns).flatMap fun x => pictures x.2.text) =
        (linesOf ns).flatMap pictures ∧
      ∀ x ∈ paragraphsFrom above index .blocks ns, Drawn x.2.text := by
  induction ns generalizing index with
  | nil => exact ⟨rfl, nofun⟩
  | cons n ns ih =>
    have ho' := fun m hm => ho m (List.mem_cons_of_mem n hm)
    rw [paragraphsFrom, List.flatMap_append, List.forall_mem_append]
    by_cases hp : n.isParagraph
    · cases n with
      | paragraph p rendered =>
        obtain ⟨hd, hl⟩ := List.forall_mem_cons.1 (show ∀ l ∈ p.text :: linesOf ns, Drawn l from hl)
        obtain ⟨he, hrest⟩ := @ih (index + 1) ho' hl
        refine ⟨?_, ?_, hrest⟩
        · rw [he]
          simp [paragraphsAt, linesOf, paragraphsOf, paragraph?]
        · exact List.forall_mem_singleton.2 hd
      | _ => cases hp
    · have hn := ho n List.mem_cons_self (by simpa using hp)
      rw [linesOf_cons_of_not (by simpa using hp)] at hl ⊢
      obtain ⟨he, hrest⟩ := @ih (index + 1) ho' hl
      have hat : paragraphsAt (above ++ [index]) .blocks n =
          (paragraphsAt [] .blocks n).map fun x => (above ++ [index] ++ x.1, x.2) := by
        rw [← paragraphsAt_append, List.append_nil]
      rw [hat, he, List.flatMap_map, List.flatMap_eq_nil_iff.2 fun x hx => (hn x hx).2]
      refine ⟨rfl, fun y hy => ?_, hrest⟩
      obtain ⟨x, hx, rfl⟩ := List.mem_map.1 hy
      exact (hn x hx).1

/-- The image markers of a cell are those of its text. -/
theorem pictures_cell (h : Holds t cell) (ht : Drawn t) (here : Path) :
    ((paragraphsAt here .cells cell).flatMap fun x => pictures x.2.text) = pictures t ∧
      ∀ x ∈ paragraphsAt here .cells cell, Drawn x.2.text := by
  obtain ⟨hcell, rfl, ho⟩ := h
  cases cell with
  | cell attributes children rendered =>
    rw [text] at ht ⊢
    obtain ⟨hp, hd⟩ := Section.pictures_unlines ht
    rw [hp]
    exact pictures_blocks ho hd
  | _ => cases hcell

theorem pictures_cells {above : Path} {index : Nat} (h : List.Forall₂ Holds ts cells)
    (ht : ∀ t ∈ ts, Drawn t) :
    ((paragraphsFrom above index .cells cells).flatMap fun x => pictures x.2.text) = ts.flatMap pictures ∧
      ∀ x ∈ paragraphsFrom above index .cells cells, Drawn x.2.text := by
  induction h generalizing index with
  | nil => exact ⟨rfl, nofun⟩
  | @cons t cell ts cells hc _ ih =>
    obtain ⟨hd, ht⟩ := List.forall_mem_cons.1 ht
    obtain ⟨he, hcell⟩ := pictures_cell hc hd (above ++ [index])
    obtain ⟨hes, hcells⟩ := @ih (index + 1) ht
    rw [paragraphsFrom, List.flatMap_append, he, hes, List.forall_mem_append]
    exact ⟨rfl, hcell, hcells⟩

/-! ## Texts written into cells -/

theorem holds_build (s : CellSnapshot) (t : Text) : Holds t (s.build t) where
  isCell := rfl
  text := text_build s t
  others := by
    intro n hn hp
    obtain ⟨line, -, rfl⟩ := List.mem_map.1 hn
    cases hp

theorem holds_setText (hc : cell.isCell)
    (ho : ∀ n ∈ cell.children, n.isParagraph = false → ∀ x ∈ paragraphsAt [] .blocks n,
      Drawn x.2.text ∧ pictures x.2.text = []) : Holds t (cell.setText t) := by
  cases cell with
  | cell attributes children rendered =>
    refine ⟨rfl, text_setCellText attributes children rendered t, fun n hn hp => ?_⟩
    rcases Section.mem_setCellText hn with ⟨hn, -⟩ | ⟨p, r, rfl, -⟩
    · exact ho n hn hp
    · cases hp
  | _ => cases hc

/-- Each cell has the text that is written into it. -/
theorem holds_writeCells (hc : ∀ cell ∈ cells, cell.isCell)
    (ho : ∀ cell ∈ cells, ∀ n ∈ cell.children, n.isParagraph = false → ∀ x ∈ paragraphsAt [] .blocks n,
      Drawn x.2.text ∧ pictures x.2.text = [])
    (hl : ts.length = cells.length) : List.Forall₂ Holds ts (writeRow.writeCells cells ts) := by
  induction cells generalizing ts with
  | nil =>
    obtain rfl := List.length_eq_zero_iff.1 hl
    exact .nil
  | cons cell cells ih =>
    rw [List.forall_mem_cons] at hc ho
    cases ts with
    | nil => cases hl
    | cons t ts =>
      refine .cons ?_ (ih hc.2 ho.2 (Nat.succ.inj hl))
      split
      · next ht => exact ⟨hc.1, ht, ho.1⟩
      · exact holds_setText hc.1 ho.1

theorem holds_buildCells {ss : List CellSnapshot} (hl : ts.length = ss.length) :
    List.Forall₂ Holds ts ((ss.zip ts).map fun (s, t) => s.build t) := by
  induction ss generalizing ts with
  | nil =>
    obtain rfl := List.length_eq_zero_iff.1 hl
    exact .nil
  | cons s ss ih =>
    cases ts with
    | nil => cases hl
    | cons t ts => exact .cons (holds_build s t) (ih (Nat.succ.inj hl))

end Node

/-! ## Images of rows -/

/-- Images that are placed among paragraphs, each in the first that has its marker. -/
theorem claims_claimed {ps : List (Path × Paragraph)} {rs : List ImageRequest}
    (hd : ∀ x ∈ ps, Drawn x.2.text)
    (hm : (rs.map ImageRequest.picture).Perm (ps.flatMap fun x => pictures x.2.text)) :
    Claims ps (rs.map (PendingImage.claim ps)) where
  markers := by
    rw [List.map_map]
    exact hm
  places := by
    intro i hi
    obtain ⟨r, hr, rfl⟩ := List.mem_map.1 hi
    obtain ⟨x, hx, hk⟩ := List.mem_flatMap.1 (hm.subset (List.mem_map_of_mem hr))
    obtain ⟨inner, -, -, hcontains⟩ := Section.exists_of_mem_pictures hk
    cases hfind : ps.find? fun y => Text.contains r.marker y.2.text with
    | none => exact absurd hcontains (List.find?_eq_none.1 hfind x hx)
    | some y =>
      have hy := List.mem_of_find?_eq_some hfind
      have hcy : Text.contains r.marker y.2.text := by simpa using List.find?_some hfind
      refine ⟨y, hy, ?_, Section.mem_pictures_of_contains (hd y hy) hk hcy⟩
      rw [PendingImage.claim, hfind]
      rfl

namespace Section

variable {settings : Settings} {c : Context} {O : Paragraph → List PendingImage → Prop} {row : Node}

theorem Raw.allRaw_inside {D : Dialect} {F : Filling} {N : Finish D F} {level inner : Node.Level} {n : Node}
    {ns : List Node} (h : Raw D N level n) (hin : Node.inside level n = some (inner, ns)) :
    AllRaw D N inner ns := by
  cases level <;> cases n <;> cases hin
  case blocks.table.refl => exact h.2.1
  case rows.row.refl => exact h.2.2
  case cells.cell.refl => exact h.2.2

/-- The paragraphs of a template are templates. -/
theorem template_of_mem {D : Dialect} {F : Filling} {N : Finish D F} {level : Node.Level} {ns : List Node}
    (h : AllRaw D N level ns) {path : Path} {p : Paragraph}
    (hp : (path, p) ∈ paragraphsFrom [] 0 level ns) : D.Template p.text := by
  induction path generalizing level ns with
  | nil =>
    obtain ⟨i, n, -, y, -, he⟩ := Node.mem_paragraphsFrom_iff.1 hp
    cases he
  | cons j path ih =>
    obtain ⟨i, n, hn, ⟨path', p'⟩, hy, he⟩ := Node.mem_paragraphsFrom_iff.1 hp
    obtain ⟨hpath, rfl⟩ := Prod.mk.inj he
    obtain ⟨-, rfl⟩ := List.cons.inj hpath
    have hraw := allRaw_iff.1 h n (List.mem_of_getElem? hn)
    rcases Node.mem_paragraphsAt_iff.1 hy with ⟨rfl, -, rendered, rfl⟩ | ⟨inner, ms, hin, hm⟩
    · exact hraw.2
    · exact ih (hraw.allRaw_inside hin) hm

theorem mem_innerParagraphs {cell n : Node} (hc : cell ∈ row.children) (hn : n ∈ cell.children)
    (hp : n.isParagraph = false) {x : Path × Paragraph} (hx : x ∈ paragraphsAt [] .blocks n) :
    x.2 ∈ innerParagraphs row := by
  have hmem : n ∈ cell.children.filter fun n => !n.isParagraph := List.mem_filter.2 ⟨hn, by simp [hp]⟩
  obtain ⟨i, hi⟩ := List.mem_iff_getElem?.1 hmem
  exact List.mem_flatMap.2 ⟨cell, hc, List.mem_map.2
    ⟨((0 + i) :: x.1, x.2), Node.mem_paragraphsFrom_iff.2 ⟨i, n, hi, x, hx, rfl⟩, rfl⟩⟩

/-- The cells of a row of a template hold no image markers beside their paragraphs, if no table in them
does. -/
theorem others_of_raw (hr : Raw pictured noPictures .rows row)
    (hi : ∀ p ∈ innerParagraphs row, pictures p.text = []) :
    ∀ cell ∈ row.children, cell.isCell ∧ ∀ n ∈ cell.children, n.isParagraph = false →
      ∀ x ∈ paragraphsAt [] .blocks n, Drawn x.2.text ∧ pictures x.2.text = [] := by
  obtain ⟨attributes, cells, rfl, hcells⟩ := hr.exists_row
  intro cell hc
  obtain ⟨attributes', children, rendered, rfl, -, -, hch⟩ := (allRaw_iff.1 hcells cell hc).exists_cell
  refine ⟨rfl, fun n hn hp x hx => ⟨drawn_of_pictured ?_, hi x.2 (mem_innerParagraphs hc hn hp hx)⟩⟩
  obtain ⟨i, hm⟩ := List.mem_iff_getElem?.1 hn
  have hmem : ((0 + i) :: x.1, x.2) ∈ paragraphsFrom [] 0 .blocks children :=
    Node.mem_paragraphsFrom_iff.2 ⟨i, n, hm, x, hx, rfl⟩
  exact template_of_mem hch hmem

section Calm

variable (hsymbol : Text.Unopened settings.currencySymbol)
include hsymbol

/-- The texts of a row ask for the images whose markers are in them. -/
theorem reports_texts (hc : c.Calm) {cells : List CellSnapshot}
    (ht : ∀ cell ∈ cells, pictured.Template cell.text) :
    (cells.mapM fun cell => render settings c true cell.text).Reports fun ts rs =>
      ts.length = cells.length ∧ (∀ t ∈ ts, Drawn t) ∧
        (rs.map ImageRequest.picture).Perm (ts.flatMap pictures) := by
  refine (reports_mapM (P := fun _ u rs => Shows u rs) fun cell hm =>
    reports_render hsymbol hc (ht cell hm)).mono ?_
  rintro _ _ ⟨ps, hps, rfl, rfl⟩
  have hshows : ∀ p ∈ ps, Shows p.1 p.2 := fun p hp => by
    obtain ⟨cell, -, hcell⟩ := Merging.exists_of_forall₂ hps.flip hp
    exact hcell
  refine ⟨?_, fun t hm => ?_, perm_flatMap_pictures hshows⟩
  · rw [List.length_map, hps.length_eq]
  · obtain ⟨p, hp, rfl⟩ := List.mem_map.1 hm
    exact (hshows p hp).1

omit hsymbol in
/-- Images that are placed among the paragraphs of a row are those of its paragraphs, together. -/
theorem accounts_claimed {attributes : Text} {cells : List Node} {ts : List Text} {rs : List ImageRequest}
    (h : List.Forall₂ Node.Holds ts cells) (ht : ∀ t ∈ ts, Drawn t)
    (hm : (rs.map ImageRequest.picture).Perm (ts.flatMap pictures)) :
    Accounts O false .rows (Node.row attributes cells).markRendered
      (rs.map (PendingImage.claim (paragraphsAt [] .rows (.row attributes cells)))) := by
  have hcells := @Node.pictures_cells _ _ [] 0 h ht
  refine .inr ⟨rfl, claims_claimed hcells.2 ?_⟩
  exact hm.trans (.of_eq hcells.1.symm)

/-- **The images of a rendered row are those of its paragraphs**, together, whether it is written into
the row that is there or built anew. -/
theorem reports_renderRow (hc : c.Calm) (hr : Raw pictured noPictures .rows row)
    (hi : ∀ p ∈ innerParagraphs row, pictures p.text = []) {s : RowSnapshot} (hcap : Captures pictured s row)
    (first : Bool) :
    (renderRow settings c (if first then some row else none) s).Reports (Accounts O false .rows) := by
  have htexts := reports_texts hsymbol hc hcap.2
  have hothers := others_of_raw hr hi
  unfold renderRow
  refine Reports.bind (P := fun node is => Accounts O false .rows node.markRendered is)
    (Reports.mapImages (P := fun node rs => Accounts O false .rows node.markRendered
      (rs.map (PendingImage.claim (paragraphsAt [] .rows node)))) ?_ fun _ _ h => h) fun node is h =>
        reports_pure ?_
  · cases first with
    | true =>
      refine htexts.bind fun ts rs ⟨hlen, hd, hm⟩ => reports_pure ?_
      rw [List.append_nil]
      obtain ⟨attributes, cells, rfl, -⟩ := hr.exists_row
      exact accounts_claimed (Node.holds_writeCells (fun cell hcell => (hothers cell hcell).1)
        (fun cell hcell => (hothers cell hcell).2) (hlen.trans hcap.1)) hd hm
    | false =>
      refine htexts.bind fun ts rs ⟨hlen, hd, hm⟩ => reports_pure ?_
      rw [List.append_nil]
      exact accounts_claimed (Node.holds_buildCells hlen) hd hm
  · rwa [List.append_nil]

/-- The rows of a section have their images, set by set. -/
theorem reports_renderRows (hc : c.Calm) (nested : Bool) {opener : Marker} {closer : Option Marker}
    {rows : List Node} (ho : Opens pictured opener)
    (hcloser : ∀ m ∈ closer, ∃ inner, Text.FreeOf Marker.closing inner ∧ m.text = Marker.enclose inner)
    (hr : ∀ row ∈ rows, Raw pictured noPictures .rows row)
    (hi : ∀ row ∈ rows, ∀ p ∈ innerParagraphs row, pictures p.text = []) :
    (renderRows settings c nested opener closer rows).Reports (Listed (Accounts O false .rows) 0) := by
  have hcap := captures_captureRows ho hcloser hr
  unfold renderRows
  dsimp only
  refine (Merging.silent_records settings opener c nested).bind fun records hrecords => ?_
  have hcalm := Value.allCalm_iff.1 ((agree_calmRecords hc opener nested).of_gives hrecords).2
  refine reports_sets fun r hrecord => ?_
  have hc' := hc.forRow (hcalm _ (List.fst_mem_of_mem_zipIdx hrecord)) r.2
  refine (reports_forEach (B := Accounts O false .rows) fun x hx => ?_).gives.mono fun made js h =>
    ⟨(Merging.gives_forEach_iff.1 h.1).length_eq.symm, h.2⟩
  have hrow := (List.of_mem_zip hx).2
  have hrendered := reports_renderRow (O := O) hsymbol hc' (hr x.2 hrow) (hi x.2 hrow)
    (List.forall₂_zip hcap hx) (decide (r.2 = 0))
  simpa using hrendered

/-- The images of a slot: a row that was kept has none so far. -/
def SlotHas {α : Type} (O : Paragraph → List PendingImage → Prop) : Slot α → List PendingImage → Prop
  | .kept _, is => is = []
  | .made row, is => Accounts O false .rows row is

/-- **The images of an expanded table are those of the rows that its sections became.** -/
theorem reports_expandRows (hc : c.Calm) (nested : Bool) {α : Type} (node : α → Node) {rs : List α}
    (hr : ∀ r ∈ rs, Raw pictured noPictures .rows (node r))
    (hi : ∀ row ∈ repeatedRows (rs.map node), ∀ p ∈ innerParagraphs row, pictures p.text = []) :
    (expandRows settings c nested node rs).Reports (Listed (SlotHas O) 0) := by
  induction hn : rs.length using Nat.strongRecOn generalizing rs with
  | ind n ih =>
    cases rs with
    | nil =>
      rw [expandRows]
      exact reports_pure rfl
    | cons r rs =>
      have hlt : ∀ us : List α, us.length ≤ rs.length → us.length < n := fun us hle => by
        rw [← hn]
        exact Nat.lt_succ_of_le hle
      rw [expandRows]
      cases ho : rowOpener? (node r) with
      | none =>
        rw [List.map_cons, repeatedRows, ho] at hi
        have hrest := ih _ (hlt rs (Nat.le_refl _)) (fun x hm => hr x (List.mem_cons_of_mem r hm)) hi rfl
        refine (hrest.mapImages (Q := fun slots js => Listed (SlotHas O) (0 + 1) slots js)
          fun _ _ h => h.shift).map fun slots js h => ?_
        have hkept : SlotHas O (.kept r) [] := rfl
        exact Listed.cons hkept h
      | some opener =>
        have hopens := opens_of_rowOpener? (hr r List.mem_cons_self) ho
        refine (Merging.silent_rowSection opener _).bind ?_
        rintro ⟨count, closer⟩ hg
        obtain ⟨-, hcount, hcloser⟩ := agree_rowSection.of_gives hg
        obtain ⟨hrepeated, hraw, hclose⟩ := repeatedRows_cons hr ho hcount hcloser
        rw [hrepeated] at hi
        refine (reports_renderRows (O := O) hsymbol hc nested hopens hclose hraw fun row hm =>
          hi row (List.mem_append_left _ hm)).bind fun made is hmade => ?_
        have hrest := ih _ (hlt (rs.drop count) (by simp))
          (fun x hm => hr x (List.mem_cons_of_mem r (List.mem_of_mem_drop hm)))
          (fun row hm => hi row (List.mem_append_right _ hm)) rfl
        refine (hrest.mapImages (Q := fun slots js => Listed (SlotHas O) (0 + made.length) slots js)
          fun _ _ h => h.shift).map fun slots js h => ?_
        have hslots : Listed (SlotHas O) 0 (made.map (Slot.made (α := α))) is := listed_map.2 hmade
        refine hslots.append ?_
        rwa [List.length_map]

end Calm
end Section

end MailMerge

/-! ## Images of repeated blocks -/

namespace MailMerge.Section

open Merging (Reports reports_pure)
open Node (Accounts AccountsFrom)

variable {settings : Settings} {c : Context} {O : Paragraph → List PendingImage → Prop} {p : Paragraph}

/-- The paragraph is a template, and none of its images has been reported. -/
def Unfilled (p : Paragraph) (is : List PendingImage) : Prop :=
  pictured.Template p.text ∧ is = []

/-! ## Single blocks -/

/-- The images of a paragraph by itself. -/
theorem reports_here {x : Merging ImageRequest Paragraph} (h : x.Reports fun q rs => Shows q.text rs) :
    x.here.Reports Own := by
  refine h.mapImages fun q rs hq => ⟨?_, fun i hi => ?_⟩
  · rw [List.map_map, List.flatMap_singleton]
    exact hq.2
  · obtain ⟨r, hr, rfl⟩ := List.mem_map.1 hi
    exact ⟨_, List.mem_cons_self, rfl, hq.2.subset (List.mem_map_of_mem hr)⟩

section Calm

variable (hsymbol : Text.Unopened settings.currencySymbol)
include hsymbol

theorem reports_renderParagraph (hc : c.Calm) (nested : Bool) (ht : pictured.Template p.text) :
    (renderParagraph settings c nested p).Reports Own := by
  refine reports_here ((reports_render hsymbol hc ht).bind fun u rs hu => reports_pure ?_)
  rwa [List.append_nil, Paragraph.text_setText]

theorem reports_renderTemplate (hc : c.Calm) (k : Nat) (p : Paragraph) {s : ParagraphSnapshot}
    (ht : pictured.Template s.text) :
    (renderTemplate settings c k p s).Reports (Accounts O false .blocks) := by
  unfold renderTemplate
  refine Reports.bind (P := Own) (reports_here ((reports_render hsymbol hc ht).bind fun u rs hu =>
    reports_pure ?_)) fun q is hq => reports_pure ?_
  · rw [List.append_nil]
    split
    · rwa [Paragraph.text_setText]
    · rwa [ParagraphSnapshot.build, Paragraph.text_ofText]
  · rwa [List.append_nil]

/-- The rest of a table that is copied is filled in, and the whole table is closed. -/
theorem reports_finishTable (hc : c.Calm) (attributes : Text) {rows : List Node} {is : List PendingImage}
    (h : AccountsFrom Unfilled false .rows 0 rows is) :
    (finishTable settings c attributes rows).Reports fun n js => Accounts O false .blocks n (is ++ js) := by
  unfold finishTable
  refine (Node.reports_rewriteOpen (Q := Own) ?_ .rows 0 rows is h).bind fun rows' js h' => reports_pure ?_
  · rintro q _ ⟨ht, rfl⟩
    exact reports_renderParagraph hsymbol hc true ht
  · rw [List.append_nil]
    refine Node.accountsFrom_iff.2 (listed_map.2 ?_)
    exact (Node.accountsFrom_iff.1 h').imp fun row _ is hrow => hrow.close.markRendered

end Calm

/-! ## All blocks -/

mutual

/-- **The images of expanded blocks are those of the paragraphs that are closed.** -/
theorem reports_expandBlocks (hsymbol : Text.Unopened settings.currencySymbol) {c : Context} (hc : c.Calm)
    (nested : Bool) :
    ∀ nodes, AllRaw pictured noPictures .blocks nodes →
      (expandBlocks settings c nested nodes).Reports (Listed (Accounts Unfilled false .blocks) 0)
  | [], _ => by
    rw [expandBlocks]
    exact reports_pure rfl
  | .table attributes rows rendered :: ns, ⟨⟨hrendered, hrows, hi⟩, hns⟩ => by
    subst hrendered
    rw [expandBlocks]
    refine reports_followedBy (reports_single ?_) (reports_expandBlocks hsymbol hc nested ns hns)
    exact (reports_expandTable hsymbol hc nested rows hrows hi).mono fun _ _ h =>
      Node.accountsFrom_iff.2 h
  | .paragraph p rendered :: ns, ⟨⟨hrendered, hp⟩, hns⟩ => by
    subst hrendered
    have hself : Listed (Accounts Unfilled false .blocks) 0 [.paragraph p] [] :=
      listed_of_none (List.forall_mem_singleton.2 ⟨hp, rfl⟩)
    rw [expandBlocks]
    cases ho : firstOpener? p.text with
    | none => exact reports_followedBy (reports_pure hself) (reports_expandBlocks hsymbol hc nested ns hns)
    | some opener =>
      dsimp only
      cases hsection : blockSection? opener (.paragraph p :: ns) with
      | none =>
        dsimp only
        refine (Merging.silent_report [_] ()).bind fun _ _ => ?_
        exact reports_followedBy (reports_pure hself) (reports_expandBlocks hsymbol hc nested ns hns)
      | some q =>
        obtain ⟨count, closer⟩ := q
        cases count with
        | zero =>
          dsimp only
          refine reports_followedBy (reports_single ?_) (reports_expandBlocks hsymbol hc nested ns hns)
          exact reports_renderParagraph hsymbol hc nested hp
        | succ count =>
          obtain ⟨htemplates, hdrop⟩ := raw_of_blockSection? hp hns ho hsection
          dsimp only
          refine reports_followedBy ?_ (reports_expandBlocks hsymbol hc nested (ns.drop (count + 1)) hdrop)
          refine (Merging.silent_records settings opener c nested).bind fun records hrecords => ?_
          have hcalm := Value.allCalm_iff.1 ((agree_calmRecords hc opener nested).of_gives hrecords).2
          refine reports_sets fun r hrecord => ?_
          have hc' := hc.forRow (hcalm _ (List.fst_mem_of_mem_zipIdx hrecord)) r.2
          refine (reports_forEach (B := Accounts Unfilled false .blocks) fun template _ => ?_).gives.mono
            fun made js h => ⟨?_, h.2⟩
          · exact reports_expandCopy hsymbol hc' r.2 template.val
              (htemplates template.val template.property)
          · rw [← (Merging.gives_forEach_iff.1 h.1).length_eq, List.length_attach]
  | .row attributes cells rendered :: ns, ⟨_, hns⟩ | .cell attributes children rendered :: ns, ⟨_, hns⟩
  | .pageBreak attributes :: ns, ⟨_, hns⟩ | .verbatim xml :: ns, ⟨_, hns⟩ => by
    rw [expandBlocks]
    · exact reports_followedBy (reports_pure (listed_of_none (List.forall_mem_singleton.2 rfl)))
        (reports_expandBlocks hsymbol hc nested ns hns)
    all_goals simp
  termination_by nodes => sizeOf nodes
  decreasing_by
    · simp only [List.cons.sizeOf_spec, Node.table.sizeOf_spec]; omega
    · simp only [List.cons.sizeOf_spec]; omega
    · simp only [List.cons.sizeOf_spec]; omega
    · simp only [List.cons.sizeOf_spec]; omega
    · simp only [List.cons.sizeOf_spec]; omega
    · exact size_of_mem_captureBlocks template.property
    · have := sizeOf_drop_le (count + 1) ns
      simp only [List.cons.sizeOf_spec]
      omega
    all_goals
      simp only [List.cons.sizeOf_spec]
      omega

theorem reports_expandCopy (hsymbol : Text.Unopened settings.currencySymbol) {c : Context} (hc : c.Calm)
    (k : Nat) :
    ∀ template, TemplateRaw pictured noPictures template →
      (expandCopy settings c k template).Reports (Accounts Unfilled false .blocks)
  | .paragraph p s, h => by
    rw [expandCopy]
    exact reports_renderTemplate hsymbol hc k p h
  | .node (.table attributes rows rendered), ⟨_, hrendered, hrows, hi⟩ => by
    subst hrendered
    rw [expandCopy]
    exact (reports_expandTable hsymbol hc true rows hrows hi).bind fun rows' is h =>
      reports_finishTable hsymbol hc attributes (Node.accountsFrom_iff.2 h)
  | .node (.paragraph p rendered), ⟨hp, _⟩ => by cases hp
  | .node (.row attributes cells rendered), _ | .node (.cell attributes children rendered), _
  | .node (.pageBreak attributes), _ | .node (.verbatim xml), _ => by
    rw [expandCopy]
    · exact reports_pure rfl
    all_goals simp
  termination_by template => template.size
  decreasing_by
    simp only [BlockTemplate.size, Node.table.sizeOf_spec]
    omega

theorem reports_expandTable (hsymbol : Text.Unopened settings.currencySymbol) {c : Context} (hc : c.Calm)
    (nested : Bool) (rows : List Node) (hrows : AllRaw pictured noPictures .rows rows)
    (hi : ∀ row ∈ repeatedRows rows, ∀ p ∈ innerParagraphs row, noPictures.done p.text p.text) :
    (expandTable settings c nested rows).Reports (Listed (Accounts Unfilled false .rows) 0) := by
  have hraw : ∀ r ∈ rows, Raw pictured noPictures .rows r := allRaw_iff.1 hrows
  have hi' : ∀ row ∈ repeatedRows (rows.attach.map Subtype.val), ∀ p ∈ innerParagraphs row,
      pictures p.text = [] := by
    rw [List.attach_map_subtype_val]
    exact fun row hrow p hp => (hi row hrow p hp).2
  rw [expandTable]
  refine (reports_expandRows (O := Unfilled) hsymbol hc nested Subtype.val
    (fun r _ => hraw r.val r.property) hi').bind fun slots is h => ?_
  refine reports_addEach (fun slot _ is hslot => ?_) h
  cases slot with
  | kept row =>
    obtain rfl : is = [] := hslot
    exact reports_expandRow hsymbol hc nested row.val (hraw row.val row.property)
  | made row =>
    refine reports_pure ?_
    rw [List.append_nil]
    exact hslot
  termination_by sizeOf rows
  decreasing_by exact List.sizeOf_lt_of_mem row.property

theorem reports_expandRow (hsymbol : Text.Unopened settings.currencySymbol) {c : Context} (hc : c.Calm)
    (nested : Bool) :
    ∀ row, Raw pictured noPictures .rows row →
      (expandRow settings c nested row).Reports (Accounts Unfilled false .rows)
  | .row attributes cells rendered, ⟨hrendered, _, hcells⟩ => by
    subst hrendered
    rw [expandRow]
    refine (reports_forEach fun cell _ => reports_expandCell hsymbol hc nested cell.val
      (allRaw_iff.1 hcells cell.val cell.property)).bind fun cells' is h => reports_pure ?_
    rw [List.append_nil]
    exact .inl (Node.accountsFrom_iff.2 h)
  termination_by row => sizeOf row
  decreasing_by
    have := List.sizeOf_lt_of_mem cell.property
    simp only [Node.row.sizeOf_spec]
    omega

theorem reports_expandCell (hsymbol : Text.Unopened settings.currencySymbol) {c : Context} (hc : c.Calm)
    (nested : Bool) :
    ∀ cell, Raw pictured noPictures .cells cell →
      (expandCell settings c nested cell).Reports (Accounts Unfilled false .cells)
  | .cell attributes children rendered, ⟨_, _, hch⟩ => by
    rw [expandCell]
    refine (reports_expandBlocks hsymbol hc nested children hch).bind fun children' is h => reports_pure ?_
    rw [List.append_nil]
    exact Node.accountsFrom_iff.2 h
  termination_by cell => sizeOf cell

end

end MailMerge.Section
