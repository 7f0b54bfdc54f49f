import MailMerge.Proofs.Text.Calm
import MailMerge.Proofs.Tree.Alike
import MailMerge.Value.Path

/-!
# Texts written into trees

A text that is written into a paragraph, a cell or a row is the text that is read there afterwards, and
all that is not the text stays. Texts that are related line by line are written into the same cell, and
rows with related texts are built from the same snapshot: the results are alike.

**`alike_setCellText`**: a cell is alike after related texts are written into it.

**`setCellText_self`**: a cell of paragraphs of one line each keeps its nodes when its own text is
written into it.

**`writes_keep`**: what is written is read again, and all else stays.
-/

namespace MailMerge

namespace Text

/-- Lines that are put together are the lines of the text. -/
theorem lines_unlines {ts : List Text} (hne : ts ≠ []) (h : ∀ t ∈ ts, '\n' ∉ t) :
    lines (unlines ts) = ts := by
  induction ts with
  | nil => exact absurd rfl hne
  | cons t ts ih =>
    have ht := h t List.mem_cons_self
    cases ts with
    | nil => exact splitOn_of_notMem ht
    | cons u us =>
      have hrest := ih (by simp) fun t' ht' => h t' (List.mem_cons_of_mem t ht')
      show splitOn '\n' (t ++ ['\n'] ++ unlines (u :: us)) = _
      rw [List.append_assoc, List.singleton_append, splitOn_append, splitOn_of_notMem ht]
      exact congrArg (t :: ·) hrest

theorem exists_append_of_mem_join (sep : Text) {t : Text} {ts : List Text} (h : t ∈ ts) :
    ∃ a b, join sep ts = a ++ t ++ b := by
  induction ts with
  | nil => cases h
  | cons u ts ih =>
    cases ts with
    | nil =>
      obtain rfl := List.mem_singleton.1 h
      exact ⟨[], [], by simp [join]⟩
    | cons v ts =>
      rcases List.mem_cons.1 h with rfl | h
      · exact ⟨[], sep ++ join sep (v :: ts), by simp [join]⟩
      · obtain ⟨a, b, he⟩ := ih h
        refine ⟨u ++ sep ++ a, b, ?_⟩
        rw [join, he]
        · simp
        · simp

/-- Two texts that are put together with others stand apart in the result. -/
theorem exists_append_of_mem_join_append (sep : Text) {t u : Text} (ts : List Text) {us : List Text}
    (h : u ∈ us) : ∃ a b c, join sep (ts ++ t :: us) = a ++ t ++ b ++ u ++ c := by
  induction ts with
  | nil =>
    obtain ⟨b, c, he⟩ := exists_append_of_mem_join sep h
    obtain ⟨v, vs, rfl⟩ := List.exists_cons_of_ne_nil (List.ne_nil_of_mem h)
    exact ⟨[], sep ++ b, c, by simp [join, he]⟩
  | cons v ts ih =>
    obtain ⟨a, b, c, he⟩ := ih
    have hcons : join sep (v :: ts ++ t :: us) = v ++ sep ++ join sep (ts ++ t :: us) := by
      cases ts <;> rfl
    exact ⟨v ++ sep ++ a, b, c, by rw [hcons, he]; simp⟩

end Text

namespace Paragraph

theorem attributes_setText (p : Paragraph) (t : Text) : (p.setText t).attributes = p.attributes := by
  unfold setText
  split <;> rfl

theorem setText_text (p : Paragraph) : p.setText p.text = p := by
  rw [setText, if_pos rfl]

/-- The runs with raw content. -/
def rawRuns (p : Paragraph) : List Run :=
  p.runs.filter fun r => r.raw.isSome

/-- The raw runs before the first run of text and those behind it are all raw runs. -/
theorem rawRuns_restyle (p : Paragraph) (t style : Text) : (p.restyle t style).rawRuns = p.rawRuns := by
  have hleading : (p.runs.takeWhile fun r => r.raw.isSome).filter (fun r => r.raw.isSome) =
      p.runs.takeWhile fun r => r.raw.isSome :=
    List.filter_eq_self.2 fun r hr => List.mem_takeWhile_imp (p := fun r : Run => r.raw.isSome) hr
  have hnew : (ofText t [] style).runs.filter (fun r => r.raw.isSome) = [] := by
    unfold ofText
    split <;> rfl
  have hruns : p.rawRuns = (p.runs.takeWhile fun r => r.raw.isSome) ++
      (p.runs.dropWhile fun r => r.raw.isSome).filter fun r => r.raw.isSome := by
    conv_lhs => rw [rawRuns, ← List.takeWhile_append_dropWhile (p := fun r => r.raw.isSome) (l := p.runs)]
    rw [List.filter_append, hleading]
  rw [hruns, rawRuns, restyle, List.filter_append, List.filter_append, hleading, hnew, List.append_nil,
    List.filter_filter]
  simp only [Bool.and_self]

theorem rawRuns_setText (p : Paragraph) (t : Text) : (p.setText t).rawRuns = p.rawRuns := by
  unfold setText
  split
  · rfl
  · exact rawRuns_restyle p t p.runStyle

theorem text_ofText (t attributes style : Text) : (ofText t attributes style).text = t := by
  unfold ofText text
  split
  · next h => simp [h]
  · simp

end Paragraph

namespace Node

variable {O : Paragraph → Paragraph → Prop} {K : Text → Text → Prop} {ns : List Node}
  {l r : Text} {ls rs : List Text}

/-- The paragraphs have the same properties and related texts. -/
def Done (K : Text → Text → Prop) (p q : Paragraph) : Prop :=
  p.attributes = q.attributes ∧ K p.text q.text

theorem done_setText (p : Paragraph) (h : K l r) : Done K (p.setText l) (p.setText r) := by
  refine ⟨?_, ?_⟩
  · rw [Paragraph.attributes_setText, Paragraph.attributes_setText]
  · rwa [Paragraph.text_setText, Paragraph.text_setText]

theorem done_ofText (attributes style : Text) (h : K l r) :
    Done K (Paragraph.ofText l attributes style) (Paragraph.ofText r attributes style) := by
  refine ⟨rfl, ?_⟩
  rwa [Paragraph.text_ofText, Paragraph.text_ofText]

theorem alike_ofText (attributes style : Text) (h : K l r) :
    Alike O (Done K) true .blocks (paragraph (Paragraph.ofText l attributes style))
      (paragraph (Paragraph.ofText r attributes style)) := by
  rw [alike_paragraph]
  exact done_ofText attributes style h

/-! ## Cells -/

/-- The nodes that are no paragraphs count as done as they are. -/
def OthersDone (O : Paragraph → Paragraph → Prop) (K : Text → Text → Prop) (ns : List Node) : Prop :=
  ∀ n ∈ ns, n.isParagraph = false → Alike O (Done K) true .blocks n n

theorem isParagraph_eq_false_of {n : Node} (h : ∀ p rendered, n ≠ paragraph p rendered) :
    n.isParagraph = false := by
  cases n with
  | paragraph p rendered => exact absurd rfl (h p rendered)
  | _ => rfl

theorem setLines_cons_of_not {n : Node} (h : n.isParagraph = false) (ns : List Node)
    (ts : List Text) : setLines (n :: ns) ts = n :: setLines ns ts := by
  cases n with
  | paragraph p rendered => cases h
  | _ => cases ts <;> rfl

theorem linesOf_cons_of_not {n : Node} (h : n.isParagraph = false) (ns : List Node) :
    linesOf (n :: ns) = linesOf ns := by
  cases n with
  | paragraph p rendered => cases h
  | _ => rfl

theorem alike_setLines (ho : OthersDone O K ns) (h : List.Forall₂ K ls rs)
    (hl : ls.length = (paragraphsOf ns).length) :
    List.Forall₂ (Alike O (Done K) true .blocks) (setLines ns ls) (setLines ns rs) := by
  induction ns generalizing ls rs with
  | nil => exact .nil
  | cons n ns ih =>
    have ho' : OthersDone O K ns := fun m hm => ho m (List.mem_cons_of_mem n hm)
    by_cases hp : n.isParagraph
    · cases n with
      | paragraph p rendered =>
        have hl' : ls.length = (paragraphsOf ns).length + 1 := hl
        cases h with
        | nil => simp at hl'
        | cons hk h =>
          rw [List.length_cons, Nat.add_right_cancel_iff] at hl'
          refine .cons (alike_paragraph.2 ?_) (ih ho' h hl')
          exact done_setText p hk
      | _ => cases hp
    · have hp' : n.isParagraph = false := by simpa using hp
      have hl' : ls.length = (paragraphsOf ns).length := by
        rw [hl]
        cases n with
        | paragraph p rendered => cases hp'
        | _ => rfl
      rw [setLines_cons_of_not hp', setLines_cons_of_not hp']
      exact .cons (ho n List.mem_cons_self hp') (ih ho' h hl')

theorem alike_rebuildLines (ho : OthersDone O K ns) (h : List.Forall₂ K ls rs) :
    List.Forall₂ (Alike O (Done K) true .blocks) (rebuildLines ns ls) (rebuildLines ns rs) := by
  unfold rebuildLines
  refine List.rel_append ?_ ?_
  · rw [List.forall₂_map_left_iff, List.forall₂_map_right_iff]
    exact h.imp fun l r hk => alike_ofText _ _ hk
  · rw [List.forall₂_same]
    intro n hn
    obtain ⟨hm, hp⟩ := List.mem_filter.1 hn
    exact ho n hm (by simpa using hp)

/-- **A cell is alike after related texts are written into it.** -/
theorem alike_setCellText (ho : OthersDone O K ns)
    (h : List.Forall₂ K (Text.lines l) (Text.lines r)) :
    List.Forall₂ (Alike O (Done K) true .blocks) (setCellText ns l) (setCellText ns r) := by
  unfold setCellText
  by_cases hl : (Text.lines l).length = (paragraphsOf ns).length
  · rw [if_pos hl, if_pos (h.length_eq ▸ hl)]
    exact alike_setLines ho h hl
  · rw [if_neg hl, if_neg (h.length_eq ▸ hl)]
    exact alike_rebuildLines ho h

theorem setLines_linesOf (ns : List Node) : setLines ns (linesOf ns) = ns := by
  induction ns with
  | nil => rfl
  | cons n ns ih =>
    cases n with
    | paragraph p rendered =>
      show paragraph (p.setText p.text) rendered :: setLines ns (linesOf ns) = _
      rw [Paragraph.setText_text, ih]
    | _ => rw [linesOf_cons_of_not rfl, setLines_cons_of_not rfl, ih]

/-- **A cell of paragraphs of one line keeps its nodes when its own text is written into it.** -/
theorem setCellText_self (hne : paragraphsOf ns ≠ []) (h : ∀ p ∈ paragraphsOf ns, '\n' ∉ p.text) :
    setCellText ns (Text.unlines (linesOf ns)) = ns := by
  have hlines : Text.lines (Text.unlines (linesOf ns)) = linesOf ns := by
    refine Text.lines_unlines (by simpa [linesOf] using hne) fun t ht => ?_
    obtain ⟨p, hp, rfl⟩ := List.mem_map.1 ht
    exact h p hp
  unfold setCellText
  rw [hlines, if_pos (by rw [linesOf, List.length_map]), setLines_linesOf]

theorem alike_build (s : CellSnapshot) (h : List.Forall₂ K (Text.lines l) (Text.lines r)) :
    Alike O (Done K) true .cells (s.build l) (s.build r) := by
  unfold CellSnapshot.build
  rw [alike_cell, List.forall₂_map_left_iff, List.forall₂_map_right_iff]
  exact h.imp fun l r hk => alike_ofText _ _ hk

/-! ## The texts of cells -/

theorem linesOf_append (ns ms : List Node) : linesOf (ns ++ ms) = linesOf ns ++ linesOf ms := by
  rw [linesOf, paragraphsOf, List.filterMap_append, List.map_append]
  rfl

theorem linesOf_map_ofText (attributes style : Text) (ts : List Text) :
    linesOf (ts.map fun t => paragraph (Paragraph.ofText t attributes style)) = ts := by
  induction ts with
  | nil => rfl
  | cons t ts ih =>
    show (Paragraph.ofText t attributes style).text :: linesOf _ = _
    rw [Paragraph.text_ofText, ih]

theorem linesOf_setLines {ns : List Node} {ts : List Text}
    (h : ts.length = (paragraphsOf ns).length) : linesOf (setLines ns ts) = ts := by
  induction ns generalizing ts with
  | nil => exact (List.length_eq_zero_iff.1 h).symm
  | cons n ns ih =>
    cases n with
    | paragraph p rendered =>
      cases ts with
      | nil => cases h
      | cons t ts =>
        show (p.setText t).text :: linesOf (setLines ns ts) = t :: ts
        rw [Paragraph.text_setText, ih (Nat.succ.inj h)]
    | _ =>
      rw [setLines_cons_of_not rfl, linesOf_cons_of_not rfl]
      exact ih h

theorem linesOf_rebuildLines (ns : List Node) (ts : List Text) :
    linesOf (rebuildLines ns ts) = ts := by
  have hothers : linesOf (ns.filter fun n => !n.isParagraph) = [] := by
    induction ns with
    | nil => rfl
    | cons n ns ih =>
      by_cases hp : n.isParagraph
      · rw [List.filter_cons_of_neg (by simp [hp])]
        exact ih
      · have hp : n.isParagraph = false := by simpa using hp
        rw [List.filter_cons_of_pos (by simp [hp]), linesOf_cons_of_not hp]
        exact ih
  rw [rebuildLines, linesOf_append, linesOf_map_ofText, hothers, List.append_nil]

/-- Each line that was written into a cell is the text of a paragraph, whichever way it was written. -/
theorem linesOf_setCellText (ns : List Node) (t : Text) : linesOf (setCellText ns t) = Text.lines t := by
  unfold setCellText
  dsimp only
  split
  · next h => exact linesOf_setLines h
  · exact linesOf_rebuildLines ns (Text.lines t)

/-- A cell has the text that was written into it, whatever its lines. -/
theorem text_setCellText (attributes : Text) (children : List Node) (rendered : Bool) (t : Text) :
    (cell attributes (setCellText children t) rendered).text = t := by
  rw [text, linesOf_setCellText]
  exact Text.join_splitOn '\n' t

/-- A new cell has the text that it was built with. -/
theorem text_build (s : CellSnapshot) (t : Text) : (s.build t).text = t := by
  rw [CellSnapshot.build, text, linesOf_map_ofText]
  exact Text.join_splitOn '\n' t

/-- The node is a cell. -/
def isCell : Node → Bool
  | cell .. => true
  | _ => false

/-- The node is a row of cells. -/
def isRow : Node → Bool
  | row _ cells _ => cells.all isCell
  | _ => false

theorem length_writeCells (cells : List Node) (texts : List Text) :
    (writeRow.writeCells cells texts).length = cells.length := by
  induction cells generalizing texts with
  | nil => cases texts <;> rfl
  | cons cell cells ih =>
    cases texts with
    | nil => rfl
    | cons t texts => exact congrArg Nat.succ (ih texts)

/-- Each cell has the text that was written into it, and keeps its properties. -/
theorem getElem?_writeCells {cells : List Node} (hcells : cells.all isCell) {texts : List Text}
    {i : Nat} {cell : Node} {t : Text} (hc : cells[i]? = some cell) (ht : texts[i]? = some t) :
    ∃ cell', (writeRow.writeCells cells texts)[i]? = some cell' ∧
      cell'.attributes = cell.attributes ∧ cell'.text = t := by
  induction cells generalizing texts i with
  | nil => simp at hc
  | cons first cells ih =>
    rw [List.all_cons, Bool.and_eq_true] at hcells
    cases texts with
    | nil => simp at ht
    | cons t' texts =>
      cases i with
      | succ i => exact ih hcells.2 hc ht
      | zero =>
        obtain rfl := Option.some.inj hc
        obtain rfl := Option.some.inj ht
        refine ⟨_, rfl, ?_⟩
        by_cases hsame : first.text = t'
        · rw [if_pos hsame]
          exact ⟨rfl, hsame⟩
        · rw [if_neg hsame]
          cases first with
          | cell attributes children rendered =>
            exact ⟨rfl, text_setCellText attributes children rendered t'⟩
          | _ => cases hcells.1

/-! ## What a write keeps -/

/-- The node is the same, but for the text if it is a paragraph. -/
inductive WrittenOver : Node → Node → Prop
  | paragraph (p : Paragraph) (t : Text) (rendered : Bool) :
    WrittenOver (paragraph p rendered) (paragraph (p.setText t) rendered)
  | other {n : Node} (h : n.isParagraph = false) : WrittenOver n n

/-- Lines go into the paragraphs at their places. -/
theorem writtenOver_setLines (ns : List Node) (ts : List Text) :
    List.Forall₂ WrittenOver ns (setLines ns ts) := by
  induction ns generalizing ts with
  | nil => exact .nil
  | cons n ns ih =>
    by_cases hp : n.isParagraph
    · cases n with
      | paragraph p rendered =>
        cases ts with
        | nil =>
          have hself := WrittenOver.paragraph p p.text rendered
          rw [Paragraph.setText_text] at hself
          exact .cons hself (ih [])
        | cons t ts => exact .cons (.paragraph p t rendered) (ih ts)
      | _ => cases hp
    · have hp : n.isParagraph = false := by simpa using hp
      rw [setLines_cons_of_not hp]
      exact .cons (.other hp) (ih ts)

/-- Paragraphs that are written over are paragraphs, and the other nodes are as they were. -/
theorem filter_of_writtenOver {ns ms : List Node} (h : List.Forall₂ WrittenOver ns ms) :
    (ms.filter fun n => !n.isParagraph) = ns.filter fun n => !n.isParagraph := by
  induction h with
  | nil => rfl
  | cons hn _ ih =>
    cases hn with
    | paragraph p t rendered => exact ih
    | other hp => rw [List.filter_cons_of_pos (by simp [hp]), List.filter_cons_of_pos (by simp [hp]), ih]

theorem filter_rebuildLines (ns : List Node) (ts : List Text) :
    ((rebuildLines ns ts).filter fun n => !n.isParagraph) = ns.filter fun n => !n.isParagraph := by
  rw [rebuildLines, List.filter_append, List.filter_filter, List.filter_eq_nil_iff.2]
  · simp only [Bool.and_self, List.nil_append]
  · intro n hn
    obtain ⟨t, -, rfl⟩ := List.mem_map.1 hn
    exact Bool.false_ne_true

/-- The nodes of a cell that are no paragraphs stay, in their order. -/
theorem filter_setCellText (ns : List Node) (t : Text) :
    ((setCellText ns t).filter fun n => !n.isParagraph) = ns.filter fun n => !n.isParagraph := by
  unfold setCellText
  dsimp only
  split
  · exact filter_of_writtenOver (writtenOver_setLines ns (Text.lines t))
  · exact filter_rebuildLines ns (Text.lines t)

/-- As many lines as there are paragraphs go into these. -/
theorem writtenOver_setCellText {ns : List Node} {t : Text}
    (h : (Text.lines t).length = (paragraphsOf ns).length) :
    List.Forall₂ WrittenOver ns (setCellText ns t) := by
  rw [setCellText, if_pos h]
  exact writtenOver_setLines ns (Text.lines t)

/-- A cell that has its text already stays, and another one is written into. -/
def CellWritten (c c' : Node) : Prop :=
  if c'.text = c.text then c' = c else c' = c.setText c'.text

theorem forall₂_writeCells {cells : List Node} (hcells : ∀ c ∈ cells, c.isCell) {texts : List Text}
    (hl : texts.length = cells.length) :
    (writeRow.writeCells cells texts).map text = texts ∧
    List.Forall₂ CellWritten cells (writeRow.writeCells cells texts) := by
  induction cells generalizing texts with
  | nil =>
    obtain rfl := List.length_eq_zero_iff.1 hl
    exact ⟨rfl, .nil⟩
  | cons c cells ih =>
    cases texts with
    | nil => cases hl
    | cons t texts =>
      obtain ⟨htexts, hrest⟩ := ih (fun c' hc' => hcells c' (List.mem_cons_of_mem c hc'))
        (Nat.succ.inj hl)
      rw [writeRow.writeCells]
      by_cases hsame : c.text = t
      · rw [if_pos hsame]
        have hkept : CellWritten c c := by rw [CellWritten, if_pos rfl]
        exact ⟨by rw [List.map_cons, htexts, hsame], .cons hkept hrest⟩
      · have htext : (c.setText t).text = t := by
          cases c with
          | cell attributes children rendered =>
            exact text_setCellText attributes children rendered t
          | _ => cases hcells _ List.mem_cons_self
        rw [if_neg hsame]
        refine ⟨by rw [List.map_cons, htexts, htext], .cons ?_ hrest⟩
        rw [CellWritten, htext, if_neg (Ne.symm hsame)]

/-- **What is written is read again, and all else stays.** A paragraph keeps its properties and its raw
runs, and all its runs when it has the text already. A cell keeps its properties and the nodes that are
no paragraphs, and with as many lines as paragraphs each node at its place. A row keeps its properties
and those cells that have their text already. -/
theorem writes_keep :
    (∀ (p : Paragraph) (t : Text),
      (p.setText t).text = t ∧ (p.setText t).rawRuns = p.rawRuns ∧
      (p.setText t).attributes = p.attributes ∧ (p.text = t → (p.setText t).runs = p.runs)) ∧
    (∀ (attributes : Text) (children : List Node) (rendered : Bool) (t : Text),
      ∃ written, (cell attributes children rendered).setText t = cell attributes written rendered ∧
        (cell attributes written rendered).text = t ∧ linesOf written = Text.lines t ∧
        (written.filter fun n => !n.isParagraph) = (children.filter fun n => !n.isParagraph) ∧
        ((Text.lines t).length = (paragraphsOf children).length →
          List.Forall₂ WrittenOver children written)) ∧
    (∀ (attributes : Text) (cells : List Node) (rendered : Bool) (texts : List Text),
      (∀ c ∈ cells, c.isCell) → texts.length = cells.length →
      ∃ written, (row attributes cells rendered).writeRow texts = row attributes written rendered ∧
        written.map text = texts ∧ List.Forall₂ CellWritten cells written) := by
  refine ⟨fun p t => ⟨p.text_setText t, p.rawRuns_setText t, p.attributes_setText t, ?_⟩,
    fun attributes children rendered t => ⟨setCellText children t, rfl,
      text_setCellText attributes children rendered t, linesOf_setCellText children t,
      filter_setCellText children t, writtenOver_setCellText⟩,
    fun attributes cells rendered texts hcells hl => ⟨writeRow.writeCells cells texts, rfl,
      forall₂_writeCells hcells hl⟩⟩
  rintro rfl
  rw [Paragraph.setText_text]

/-- A price above a part that is not looked into. -/
def priceNodes : List Node :=
  [ofText "1".toList, verbatim "<w:sdt/>".toList]

/-- The name and the price of an item. -/
def itemCells : List Node :=
  [cell [] [ofText "Desk".toList], cell [] priceNodes]

/-- A name that is written again, a price of one line and a price of two lines in a row. -/
theorem writes_keep_itemCells :
    ((Paragraph.ofText "Desk".toList [] []).text = "Desk".toList ∧
      ((Paragraph.ofText "Desk".toList [] []).setText "Desk".toList).runs =
        (Paragraph.ofText "Desk".toList [] []).runs) ∧
    ((Text.lines "2".toList).length = (paragraphsOf priceNodes).length ∧
      ∃ written, (cell [] priceNodes).setText "2".toList = cell [] written ∧
        List.Forall₂ WrittenOver priceNodes written) ∧
    ((∀ c ∈ itemCells, c.isCell) ∧ ["Desk".toList, "2\n3".toList].length = itemCells.length ∧
      ∃ written, (row [] itemCells).writeRow ["Desk".toList, "2\n3".toList] = row [] written ∧
        written.map text = ["Desk".toList, "2\n3".toList] ∧
        List.Forall₂ CellWritten itemCells written) := by
  obtain ⟨hparagraph, hcell, hrow⟩ := writes_keep
  have hcells : ∀ c ∈ itemCells, c.isCell := by simp [itemCells, isCell]
  obtain ⟨written, hwritten, -, -, -, hplaces⟩ := hcell [] priceNodes false "2".toList
  exact ⟨⟨rfl, (hparagraph _ _).2.2.2 rfl⟩, ⟨rfl, written, hwritten, hplaces rfl⟩,
    ⟨hcells, rfl, hrow [] itemCells false _ hcells rfl⟩⟩

end Node
end MailMerge
