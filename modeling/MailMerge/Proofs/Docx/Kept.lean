import MailMerge.Proofs.Docx.Blocks
import MailMerge.Proofs.Docx.Verbatim

/-!
# Blocks that keep their text

What is read from elements is not all of them, and some of it is written in another place. The text in the
elements is kept if there is none in what is left out, and if the properties of a paragraph come first.

**`carries_blocks`**: blocks that are read can be written, and what is written carries the text in the elements.
The proof follows the recursion of the reader: blocks, rows and cells.
-/

namespace MailMerge.Docx

open Xml

variable {d : Doctype} {scope : Xml.Scope} {l : Labelling}

/-! ## What has to be kept -/

/-- The element has no text in it. -/
def isTextless (e : Element) : Bool :=
  (textIn e).isEmpty

/-- The text of a run is kept: the run is read as all the text in it, or it is carried along. -/
def keepsRun (l : Labelling) (e : Element) : Bool :=
  match (contentOf e).mapM textOf? with
  | none => l.isWhole e
  | some pieces => pieces.flatten = e.children.flatMap textIn && (e.child? Tag.runProperties).all l.isWhole

/-- The text of an element of a paragraph is kept. In an element around runs all text stands in the runs, and
none in a run inside another or in a deletion. -/
def keepsInline (l : Labelling) (e : Element) : Bool :=
  if e.name = Tag.run then keepsRun l e
  else if e.name ∈ Tag.wrappers then
    (e.allNamed Tag.run).flatMap textIn = textIn e && (e.allNamed Tag.run).all (keepsRun l)
  else if e.name ∈ Tag.ignored then isTextless e
  else l.isWhole e

/-- The children of a paragraph without its properties. -/
def inlineOf (e : Element) : List Element :=
  e.children.filter fun c => c.name ≠ Tag.paragraphProperties

/-- The node is a page break. -/
def isPageBreak : Node → Bool
  | .pageBreak _ => true
  | _ => false

/-- The text of a paragraph is kept. Properties with text in them come first, and a paragraph that is read as a
page break has no other text. -/
def keepsParagraph (l : Labelling) (e : Element) : Bool :=
  (e.child? Tag.paragraphProperties).all l.isWhole
    && e.children.flatMap textIn =
      ((e.child? Tag.paragraphProperties).map textIn).getD [] ++ (inlineOf e).flatMap textIn
    && (inlineOf e).all (keepsInline l)
    && (!isPageBreak (paragraphNode l e) || ((inlineOf e).flatMap textIn).isEmpty)

mutual

/-- The text of blocks is kept; those of one name are left out and have none. -/
def keepsAll (l : Labelling) (skipped : Option Name) : List Element → Bool
  | [] => true
  | e :: es => (if skipped = some e.name then isTextless e else keeps l e) && keepsAll l skipped es

/-- The text of a block is kept. -/
def keeps (l : Labelling) : Element → Bool
  | .mk name attributes text children tail =>
    let e := Element.mk name attributes text children tail
    if name = Tag.paragraph then keepsParagraph l e
    else if name = Tag.table then
      (e.child? Tag.tableProperties).all l.isWhole && (e.child? Tag.tableGrid).all l.isWhole
        && keepsRows l children
    else if name = Tag.control ∧ children.any fun c => c.name = Tag.controlContent then keepsControl l children
    else l.isWhole e

/-- The text inside a content control is kept: all of it stands in its content. -/
def keepsControl (l : Labelling) : List Element → Bool
  | [] => true
  | .mk name attributes text children tail :: es =>
    if name = Tag.controlContent then keepsAll l none children && es.all isTextless
    else isTextless (.mk name attributes text children tail) && keepsControl l es

/-- The text of a table is kept: all of it stands in rows. -/
def keepsRows (l : Labelling) : List Element → Bool
  | [] => true
  | .mk name attributes text children tail :: es =>
    let e := Element.mk name attributes text children tail
    (if name = Tag.row then
      (e.child? Tag.rowExceptions).all l.isWhole && (e.child? Tag.rowProperties).all l.isWhole
        && keepsCells l children
    else isTextless e) && keepsRows l es

/-- The text of a row is kept: all of it stands in cells. -/
def keepsCells (l : Labelling) : List Element → Bool
  | [] => true
  | .mk name attributes text children tail :: es =>
    let e := Element.mk name attributes text children tail
    (if name = Tag.cell then
      (e.child? Tag.cellProperties).all l.isWhole && keepsAll l (some Tag.cellProperties) children
    else isTextless e) && keepsCells l es

end

/-! ## Properties -/

/-- What elements are like that are read: sound, and without carriage returns in their texts. -/
structure Clean (e : Element) : Prop where
  sound : e.IsSound
  noReturn : HasNoReturn e

theorem Clean.children {e : Element} (h : Clean e) : ∀ c ∈ e.children, Clean c := by
  obtain ⟨name, attributes, text, children, tail⟩ := e
  intro c hc
  exact ⟨(Element.isSound_mk.1 h.sound).2 c hc, (hasNoReturn_mk.1 h.noReturn).2 c hc⟩

theorem textIn_of_isTextless {e : Element} (h : isTextless e) : textIn e = [] :=
  List.isEmpty_iff.1 h

theorem carries_childXml (h : l.Carries d scope) {e : Element} (he : Clean e) {name : Name}
    (hwhole : (e.child? name).all l.isWhole) :
    Carries d scope (l.childXml e name) (((e.child? name).map textIn).getD []) := by
  unfold Labelling.childXml
  cases hc : e.child? name with
  | none => exact .nil
  | some c =>
    rw [hc] at hwhole
    have hclean := he.children c (List.mem_of_find?_eq_some hc)
    exact carries_verbatim h hclean.sound hclean.noReturn hwhole

/-- Properties without text. -/
theorem carries_childXml_nil (h : l.Carries d scope) {e : Element} (he : Clean e) {name : Name}
    (hwhole : (e.child? name).all l.isWhole) (hnil : ∀ c ∈ e.children, c.name = name → textIn c = []) :
    Carries d scope (l.childXml e name) [] := by
  have hc := carries_childXml h he hwhole
  cases hchild : e.child? name with
  | none => rwa [hchild] at hc
  | some c =>
    have hname : c.name = name := by
      have := List.find?_some hchild
      simpa using this
    rw [hchild, Option.map_some, Option.getD_some, hnil c (List.mem_of_find?_eq_some hchild) hname] at hc
    exact hc

/-! ## Runs -/

theorem length_flatMap_filter {α : Type} (f : α → Text) (p : α → Bool) (xs : List α) :
    (xs.flatMap f).length = ((xs.filter p).flatMap f).length + ((xs.filter fun x => !p x).flatMap f).length := by
  induction xs with
  | nil => rfl
  | cons x xs ih =>
    by_cases hx : p x
    · rw [List.filter_cons_of_pos hx, List.filter_cons_of_neg (by simp [hx])]
      simp only [List.flatMap_cons, List.length_append, ih]
      omega
    · rw [List.filter_cons_of_neg hx, List.filter_cons_of_pos (by simp [hx])]
      simp only [List.flatMap_cons, List.length_append, ih]
      omega

theorem length_le_textIn {e : Element} {t : Text} (h : textOf? e = some t) : t.length ≤ (textIn e).length := by
  have hdel : e.name ≠ deletion := by
    have hnames : ∀ n ∈ [Tag.text, Tag.tab, Tag.lineBreak, Tag.carriageReturn], n ≠ deletion := by
      decide
    exact hnames e.name (mem_of_textOf? h)
  rw [textIn_eq, if_neg hdel, h, Option.getD_some, List.length_append]
  exact Nat.le_add_right ..

theorem length_flatten_le {es : List Element} {pieces : List Text} (h : es.mapM textOf? = some pieces) :
    pieces.flatten.length ≤ (es.flatMap textIn).length := by
  induction es generalizing pieces with
  | nil =>
    obtain rfl := Option.some.inj h
    exact Nat.le_refl _
  | cons e es ih =>
    simp only [List.mapM_cons, Option.bind_eq_bind, Option.bind_eq_some_iff, Option.pure_def,
      Option.some.injEq] at h
    obtain ⟨piece, hpiece, rest, hrest, rfl⟩ := h
    rw [List.flatten_cons, List.flatMap_cons, List.length_append, List.length_append]
    exact Nat.add_le_add (length_le_textIn hpiece) (ih hrest)

/-- A run that is read as all the text in it has none in its properties. -/
theorem textIn_of_not_content {e : Element} {pieces : List Text} (h : (contentOf e).mapM textOf? = some pieces)
    (hall : pieces.flatten = e.children.flatMap textIn) :
    ∀ c ∈ e.children, c.name = Tag.runProperties → textIn c = [] := by
  intro c hc hname
  have hle := length_flatten_le h
  have hsplit := length_flatMap_filter textIn
    (fun c => c.name ≠ Tag.runProperties ∧ c.name ≠ Tag.renderedPageBreak) e.children
  rw [hall] at hle
  have hzero : ((e.children.filter fun x => !decide (x.name ≠ Tag.runProperties ∧
      x.name ≠ Tag.renderedPageBreak)).flatMap textIn).length = 0 := by
    have hcontent : (contentOf e).flatMap textIn = (e.children.filter fun c =>
        c.name ≠ Tag.runProperties ∧ c.name ≠ Tag.renderedPageBreak).flatMap textIn := rfl
    rw [hcontent] at hle
    omega
  refine List.flatMap_eq_nil_iff.1 (List.length_eq_zero_iff.1 hzero) c (List.mem_filter.2 ⟨hc, ?_⟩)
  simp [hname]

/-- The pieces of a text are characters of its elements, tabs and newlines. -/
theorem forall_mem_flatten {P : Char → Prop} (htab : P '\t') (hline : P '\n') {es : List Element}
    (hes : ∀ e ∈ es, e.name = Tag.text → ∀ c ∈ e.text, P c) {pieces : List Text}
    (h : es.mapM textOf? = some pieces) : ∀ c ∈ pieces.flatten, P c := by
  induction es generalizing pieces with
  | nil =>
    obtain rfl := Option.some.inj h
    simp
  | cons e es ih =>
    rw [List.forall_mem_cons] at hes
    simp only [List.mapM_cons, Option.bind_eq_bind, Option.bind_eq_some_iff, Option.pure_def,
      Option.some.injEq] at h
    obtain ⟨piece, hpiece, rest, hrest, rfl⟩ := h
    intro c hc
    rcases List.mem_append.1 hc with hc | hc
    · unfold textOf? at hpiece
      split at hpiece
      · next ht =>
        obtain rfl := Option.some.inj hpiece
        exact hes.1 ht c hc
      · split at hpiece
        · obtain rfl := Option.some.inj hpiece
          obtain rfl := List.mem_singleton.1 hc
          exact htab
        · split at hpiece
          · obtain rfl := Option.some.inj hpiece
            obtain rfl := List.mem_singleton.1 hc
            exact hline
          · cases hpiece
    · exact ih hes.2 hrest c hc

theorem mem_all_self (e : Element) : e ∈ e.all := by
  cases e with
  | mk =>
    rw [Element.all]
    exact List.mem_cons_self

/-- **A run carries the text in it.** -/
theorem carries_run (h : l.Carries d scope) {e : Element} (he : Clean e) (hname : e.name = Tag.run)
    (hk : keepsRun l e) : Carries d scope ((runs l e).flatMap writeRun) (textIn e) := by
  have htext : textIn e = e.children.flatMap textIn :=
    textIn_of_hasOnlyInner (by rw [hname]; decide)
  unfold keepsRun at hk
  unfold runs
  cases hpieces : (contentOf e).mapM textOf? with
  | none =>
    rw [hpieces] at hk
    simpa [writeRun] using carries_verbatim h he.sound he.noReturn hk
  | some pieces =>
    rw [hpieces] at hk
    simp only [Bool.and_eq_true, decide_eq_true_eq] at hk
    obtain ⟨hall, hstyle⟩ := hk
    rw [htext, ← hall]
    cases pieces with
    | nil => exact .nil
    | cons piece pieces =>
      have hcontent : ∀ c ∈ contentOf e, Clean c := fun c hc => he.children c (List.mem_filter.1 hc).1
      have hlegal := forall_mem_flatten (P := fun c => isLegal c) (by decide) (by decide)
        (fun c hc _ => ((hcontent c hc).sound c (mem_all_self c)).text) hpieces
      have hreturn := forall_mem_flatten (P := fun c => c ≠ '\r') (by decide) (by decide)
        (fun c hc ht x hx hr => (hcontent c hc).noReturn c (mem_all_self c) ht (hr ▸ hx)) hpieces
      have := carries_writeTextRun h.markup (carries_childXml_nil h he hstyle (textIn_of_not_content hpieces hall))
        hlegal fun hmem => hreturn _ hmem rfl
      simpa [writeRun] using this

/-! ## Paragraphs -/

mutual

theorem mem_all_trans {x y e : Element} (hy : y ∈ x.all) (hx : x ∈ e.all) : y ∈ e.all := by
  cases e with
  | mk name attributes text children tail =>
    rw [Element.all, List.mem_cons] at hx
    rcases hx with rfl | hx
    · exact hy
    · rw [Element.all]
      exact List.mem_cons_of_mem _ (mem_allOf_trans hy hx)

theorem mem_allOf_trans {x y : Element} {es : List Element} (hy : y ∈ x.all) (hx : x ∈ Element.allOf es) :
    y ∈ Element.allOf es := by
  cases es with
  | nil => cases hx
  | cons e es =>
    rw [Element.allOf, List.mem_append] at hx ⊢
    exact hx.imp (mem_all_trans hy) (mem_allOf_trans hy)

end

theorem Clean.of_mem_all {e x : Element} (h : Clean e) (hx : x ∈ e.all) : Clean x where
  sound y hy := h.sound y (mem_all_trans hy hx)
  noReturn y hy := h.noReturn y (mem_all_trans hy hx)

/-- **An element of a paragraph carries the text in it.** -/
theorem carries_inline (h : l.Carries d scope) {e : Element} (he : Clean e)
    (hname : e.name ≠ Tag.paragraphProperties) (hk : keepsInline l e) :
    Carries d scope ((paragraphRuns l e).flatMap writeRun) (textIn e) := by
  unfold keepsInline at hk
  unfold paragraphRuns
  by_cases hrun : e.name = Tag.run
  · rw [if_pos hrun] at hk ⊢
    exact carries_run h he hrun hk
  · rw [if_neg hrun] at hk ⊢
    by_cases hwrapper : e.name ∈ Tag.wrappers
    · rw [if_pos hwrapper] at hk ⊢
      simp only [Bool.and_eq_true, decide_eq_true_eq, List.all_eq_true] at hk
      obtain ⟨hall, hruns⟩ := hk
      rw [List.flatMap_assoc, ← hall]
      refine .flatMap fun r hr => ?_
      have hmem := List.mem_filter.1 hr
      exact carries_run h (he.of_mem_all hmem.1) (of_decide_eq_true hmem.2) (hruns r hr)
    · rw [if_neg hwrapper] at hk ⊢
      by_cases hignored : e.name ∈ Tag.ignored
      · rw [if_pos hignored] at hk
        rw [if_pos (.inr hignored), textIn_of_isTextless hk]
        exact .nil
      · rw [if_neg hignored] at hk
        rw [if_neg fun h => h.elim hname hignored]
        simpa [writeRun] using carries_verbatim h he.sound he.noReturn hk

/-- The runs of a paragraph are those of its children without its properties. -/
theorem flatMap_paragraphRuns (l : Labelling) (e : Element) :
    e.children.flatMap (paragraphRuns l) = (inlineOf e).flatMap (paragraphRuns l) := by
  unfold inlineOf
  induction e.children with
  | nil => rfl
  | cons c cs ih =>
    by_cases hc : c.name = Tag.paragraphProperties
    · have hnone : paragraphRuns l c = [] := by
        rw [paragraphRuns, hc, if_neg (by decide), if_neg (by decide), if_pos (.inl rfl)]
      rw [List.filter_cons_of_neg (by simpa using hc), List.flatMap_cons, hnone, ih]
      rfl
    · rw [List.filter_cons_of_pos (by simpa using hc), List.flatMap_cons, List.flatMap_cons, ih]

/-- **A paragraph carries the text in it.** -/
theorem carries_paragraph (h : l.Carries d scope) {e : Element} (he : Clean e) (hname : e.name = Tag.paragraph)
    (hk : keepsParagraph l e) :
    ∃ t, writeBlock (paragraphNode l e) = .ok t ∧ Carries d scope t (textIn e) := by
  have htext : textIn e = e.children.flatMap textIn :=
    textIn_of_hasOnlyInner (by rw [hname]; decide)
  simp only [keepsParagraph, Bool.and_eq_true, decide_eq_true_eq, List.all_eq_true, Bool.or_eq_true,
    Bool.not_eq_true', List.isEmpty_iff] at hk
  obtain ⟨⟨⟨hwhole, hsplit⟩, hinline⟩, hbreak⟩ := hk
  have hproperties := carries_childXml h he hwhole
  rw [htext, hsplit]
  unfold paragraphNode at hbreak ⊢
  dsimp only at hbreak ⊢
  split
  · next hpage =>
    have hnone := hbreak.resolve_left (by rw [if_pos hpage]; simp [isPageBreak])
    have hone := (@readAs_break d scope _ h.markup).carries
    rw [hnone, writeBlock]
    exact ⟨_, rfl, .markup h.markup ['p'] (by decide) (by decide) (hproperties.append hone)⟩
  · rw [flatMap_paragraphRuns, writeBlock]
    refine ⟨_, rfl, .markup h.markup ['p'] (by decide) (by decide) (hproperties.append ?_)⟩
    rw [List.flatMap_assoc]
    refine .flatMap fun c hc => ?_
    have hmem := List.mem_filter.1 hc
    exact carries_inline h (he.children c hmem.1) (by simpa using hmem.2) (hinline c hc)

/-! ## Blocks -/

theorem writeBlocks_cons {n : Node} {ns : List Node} {t u : Text} (hn : writeBlock n = .ok t)
    (hns : writeBlocks ns = .ok u) : writeBlocks (n :: ns) = .ok (t ++ u) := by
  rw [writeBlocks, hn, hns]
  rfl

theorem writeBlocks_append {ns ms : List Node} {t u : Text} (hn : writeBlocks ns = .ok t)
    (hm : writeBlocks ms = .ok u) : writeBlocks (ns ++ ms) = .ok (t ++ u) := by
  induction ns generalizing t with
  | nil =>
    rw [writeBlocks] at hn
    obtain rfl := Except.ok.inj hn
    exact hm
  | cons n ns ih =>
    rw [writeBlocks] at hn
    cases ha : writeBlock n with
    | error e =>
      rw [ha] at hn
      cases hn
    | ok a =>
      cases hb : writeBlocks ns with
      | error e =>
        rw [ha, hb] at hn
        cases hn
      | ok b =>
        rw [ha, hb] at hn
        obtain rfl : a ++ b = t := Except.ok.inj hn
        rw [List.cons_append, writeBlocks_cons ha (ih hb), List.append_assoc]

theorem textIn_of_keepsRows {es : List Element} (h : keepsRows l es) :
    ∀ e ∈ es, e.name ≠ Tag.row → textIn e = [] := by
  induction es with
  | nil => simp
  | cons e es ih =>
    obtain ⟨name, attributes, text, children, tail⟩ := e
    rw [keepsRows, Bool.and_eq_true] at h
    refine List.forall_mem_cons.2 ⟨fun (hname : name ≠ Tag.row) => ?_, ih h.2⟩
    have hhead := h.1
    rw [if_neg hname] at hhead
    exact textIn_of_isTextless hhead

theorem textIn_of_keepsCells {es : List Element} (h : keepsCells l es) :
    ∀ e ∈ es, e.name ≠ Tag.cell → textIn e = [] := by
  induction es with
  | nil => simp
  | cons e es ih =>
    obtain ⟨name, attributes, text, children, tail⟩ := e
    rw [keepsCells, Bool.and_eq_true] at h
    refine List.forall_mem_cons.2 ⟨fun (hname : name ≠ Tag.cell) => ?_, ih h.2⟩
    have hhead := h.1
    rw [if_neg hname] at hhead
    exact textIn_of_isTextless hhead

theorem textIn_of_keepsAll {name : Name} {es : List Element} (h : keepsAll l (some name) es) :
    ∀ e ∈ es, e.name = name → textIn e = [] := by
  induction es with
  | nil => simp
  | cons e es ih =>
    rw [keepsAll, Bool.and_eq_true] at h
    refine List.forall_mem_cons.2 ⟨fun hname => ?_, ih h.2⟩
    have hhead := h.1
    rw [if_pos (congrArg some hname.symm)] at hhead
    exact textIn_of_isTextless hhead

theorem carries_cellEnd (hm : TakesMarkup d scope markupSpace) (ns : List Node) : Carries d scope (cellEnd ns) [] := by
  unfold cellEnd
  split
  · exact .nil
  · have := (ReadAs.markupTag hm ['p'] (by decide)).carries
    exact this

theorem flatMap_textIn_of_isTextless {es : List Element} (h : es.all isTextless) : es.flatMap textIn = [] :=
  List.flatMap_eq_nil_iff.2 fun e he => textIn_of_isTextless (List.all_eq_true.1 h e he)

theorem controlBlocks?_eq_none {es : List Element} (h : ¬ es.any fun c => c.name = Tag.controlContent) :
    controlBlocks? l es = none := by
  induction es with
  | nil => rw [controlBlocks?]
  | cons e es ih =>
    obtain ⟨name, attributes, text, children, tail⟩ := e
    rw [List.any_cons, Bool.or_eq_true, not_or] at h
    have hname : name ≠ Tag.controlContent := fun he => h.1 (decide_eq_true he)
    rw [controlBlocks?, if_neg hname]
    exact ih h.2

mutual

/-- **A block carries the text in it.** -/
theorem carries_block (h : l.Carries d scope) {e : Element} (he : Clean e) (hk : keeps l e) :
    ∃ t, writeBlocks (block l e) = .ok t ∧ Carries d scope t (textIn e) := by
  cases e with
  | mk name attributes text children tail =>
    have hverbatim : l.isWhole (.mk name attributes text children tail) →
        ∃ t, writeBlocks [.verbatim (l.verbatim (.mk name attributes text children tail))] = .ok t ∧
          Carries d scope t (textIn (.mk name attributes text children tail)) := by
      intro hwhole
      refine ⟨_, writeBlocks_cons (by rw [writeBlock]) (by rw [writeBlocks]), ?_⟩
      rw [List.append_nil]
      exact carries_verbatim h he.sound he.noReturn hwhole
    have hchildren : ∀ c ∈ children, Clean c := he.children
    rw [keeps] at hk
    rw [block]
    by_cases hp : name = Tag.paragraph
    · rw [if_pos hp] at hk ⊢
      obtain ⟨t, ht, hcarries⟩ := carries_paragraph h he hp hk
      refine ⟨t, ?_, hcarries⟩
      rw [writeBlocks_cons ht (by rw [writeBlocks]), List.append_nil]
    · rw [if_neg hp] at hk ⊢
      by_cases ht : name = Tag.table
      · rw [if_pos ht] at hk ⊢
        simp only [Bool.and_eq_true] at hk
        obtain ⟨⟨hproperties, hgrid⟩, hrows⟩ := hk
        obtain ⟨t, hwrite, hcarries⟩ := carries_rows h hchildren hrows
        have hnil : ∀ n ≠ Tag.row, ∀ c ∈ children, c.name = n → textIn c = [] :=
          fun n hn c hc hname => textIn_of_keepsRows hrows c hc (hname ▸ hn)
        have hfront := (carries_childXml_nil h he hproperties (hnil _ (by decide))).append
          (carries_childXml_nil h he hgrid (hnil _ (by decide)))
        refine ⟨_, writeBlocks_cons (by rw [writeBlock, hwrite]; rfl) (by rw [writeBlocks]), ?_⟩
        rw [List.append_nil, textIn_of_hasOnlyInner (by rw [Element.name, ht]; decide)]
        exact .markup h.markup "tbl" (by decide) (by decide) (hfront.append hcarries)
      · rw [if_neg ht] at hk ⊢
        by_cases hc : name = Tag.control
        · rw [if_pos hc]
          by_cases hcontent : children.any fun c => c.name = Tag.controlContent
          · rw [if_pos ⟨hc, hcontent⟩] at hk
            obtain ⟨ns, hns, t, hwrite, hcarries⟩ := carries_control h hchildren hcontent hk
            rw [hns, Option.getD_some, textIn_of_hasOnlyInner (by rw [Element.name, hc]; decide)]
            exact ⟨t, hwrite, hcarries⟩
          · rw [if_neg fun h => hcontent h.2] at hk
            rw [controlBlocks?_eq_none hcontent]
            exact hverbatim hk
        · rw [if_neg hc]
          rw [if_neg fun h => hc h.1] at hk
          exact hverbatim hk

/-- **Blocks carry the text in them.** -/
theorem carries_blocks (h : l.Carries d scope) {skipped : Option Name} {es : List Element}
    (hes : ∀ e ∈ es, Clean e) (hk : keepsAll l skipped es) :
    ∃ t, writeBlocks (blocks l skipped es) = .ok t ∧ Carries d scope t (es.flatMap textIn) := by
  cases es with
  | nil => exact ⟨[], by rw [blocks, writeBlocks], .nil⟩
  | cons e es =>
    rw [List.forall_mem_cons] at hes
    rw [keepsAll, Bool.and_eq_true] at hk
    obtain ⟨hhead, hrest⟩ := hk
    obtain ⟨u, hu, hcarries⟩ := carries_blocks h hes.2 hrest
    rw [blocks, List.flatMap_cons]
    by_cases hs : skipped = some e.name
    · rw [if_pos hs] at hhead ⊢
      rw [textIn_of_isTextless hhead]
      exact ⟨u, hu, hcarries⟩
    · rw [if_neg hs] at hhead ⊢
      obtain ⟨t, ht, hfirst⟩ := carries_block h hes.1 hhead
      exact ⟨t ++ u, writeBlocks_append ht hu, hfirst.append hcarries⟩

/-- A content control carries the text in it. -/
theorem carries_control (h : l.Carries d scope) {es : List Element} (hes : ∀ e ∈ es, Clean e)
    (hcontent : es.any fun c => c.name = Tag.controlContent) (hk : keepsControl l es) :
    ∃ ns, controlBlocks? l es = some ns ∧
      ∃ t, writeBlocks ns = .ok t ∧ Carries d scope t (es.flatMap textIn) := by
  cases es with
  | nil => cases hcontent
  | cons e es =>
    obtain ⟨name, attributes, text, children, tail⟩ := e
    rw [List.forall_mem_cons] at hes
    rw [keepsControl] at hk
    rw [controlBlocks?, List.flatMap_cons]
    by_cases hname : name = Tag.controlContent
    · rw [if_pos hname, Bool.and_eq_true] at hk
      obtain ⟨t, ht, hcarries⟩ := carries_blocks h hes.1.children hk.1
      rw [if_pos hname, flatMap_textIn_of_isTextless hk.2, List.append_nil,
        textIn_of_hasOnlyInner (by rw [Element.name, hname]; decide)]
      exact ⟨_, rfl, t, ht, hcarries⟩
    · rw [if_neg hname, Bool.and_eq_true] at hk
      rw [if_neg hname, textIn_of_isTextless hk.1]
      refine carries_control h hes.2 ?_ hk.2
      rw [List.any_cons, Bool.or_eq_true] at hcontent
      exact hcontent.resolve_left fun he => hname (of_decide_eq_true he)

/-- Rows carry the text in them. -/
theorem carries_rows (h : l.Carries d scope) {es : List Element} (hes : ∀ e ∈ es, Clean e)
    (hk : keepsRows l es) :
    ∃ t, writeRows (rows l es) = .ok t ∧ Carries d scope t (es.flatMap textIn) := by
  cases es with
  | nil => exact ⟨[], by rw [rows, writeRows], .nil⟩
  | cons e es =>
    obtain ⟨name, attributes, text, children, tail⟩ := e
    rw [List.forall_mem_cons] at hes
    rw [keepsRows, Bool.and_eq_true] at hk
    obtain ⟨hhead, hrest⟩ := hk
    obtain ⟨u, hu, hcarries⟩ := carries_rows h hes.2 hrest
    rw [rows, List.flatMap_cons]
    by_cases hname : name = Tag.row
    · rw [if_pos hname] at hhead ⊢
      simp only [Bool.and_eq_true] at hhead
      obtain ⟨⟨hexceptions, hproperties⟩, hcells⟩ := hhead
      have hchildren : ∀ c ∈ children, Clean c := hes.1.children
      obtain ⟨t, ht, hinner⟩ := carries_cells h hchildren hcells
      have hnil : ∀ n ≠ Tag.cell, ∀ c ∈ children, c.name = n → textIn c = [] :=
        fun n hn c hc hname => textIn_of_keepsCells hcells c hc (hname ▸ hn)
      have hfront := (carries_childXml_nil h hes.1 hexceptions (hnil _ (by decide))).append
        (carries_childXml_nil h hes.1 hproperties (hnil _ (by decide)))
      refine ⟨_, by rw [writeRows, ht, hu]; rfl, ?_⟩
      rw [textIn_of_hasOnlyInner (by rw [Element.name, hname]; decide)]
      exact (Carries.markup h.markup "tr" (by decide) (by decide) (hfront.append hinner)).append hcarries
    · rw [if_neg hname] at hhead ⊢
      rw [textIn_of_isTextless hhead]
      exact ⟨u, hu, hcarries⟩

/-- Cells carry the text in them. -/
theorem carries_cells (h : l.Carries d scope) {es : List Element} (hes : ∀ e ∈ es, Clean e)
    (hk : keepsCells l es) :
    ∃ t, writeCells (cells l es) = .ok t ∧ Carries d scope t (es.flatMap textIn) := by
  cases es with
  | nil => exact ⟨[], by rw [cells, writeCells], .nil⟩
  | cons e es =>
    obtain ⟨name, attributes, text, children, tail⟩ := e
    rw [List.forall_mem_cons] at hes
    rw [keepsCells, Bool.and_eq_true] at hk
    obtain ⟨hhead, hrest⟩ := hk
    obtain ⟨u, hu, hcarries⟩ := carries_cells h hes.2 hrest
    rw [cells, List.flatMap_cons]
    by_cases hname : name = Tag.cell
    · rw [if_pos hname, Bool.and_eq_true] at hhead
      rw [if_pos hname]
      have hchildren : ∀ c ∈ children, Clean c := hes.1.children
      obtain ⟨t, ht, hinner⟩ := carries_blocks h hchildren hhead.2
      have hfront := carries_childXml_nil h hes.1 hhead.1 (textIn_of_keepsAll hhead.2)
      have hend := carries_cellEnd h.markup (blocks l (some Tag.cellProperties) children)
      have hcell := (hfront.append hinner).append hend
      rw [List.append_nil] at hcell
      refine ⟨_, by rw [writeCells, ht, hu]; rfl, ?_⟩
      rw [textIn_of_hasOnlyInner (by rw [Element.name, hname]; decide)]
      exact (Carries.markup h.markup "tc" (by decide) (by decide) hcell).append hcarries
    · rw [if_neg hname] at hhead ⊢
      rw [textIn_of_isTextless hhead]
      exact ⟨u, hu, hcarries⟩

end

end MailMerge.Docx
