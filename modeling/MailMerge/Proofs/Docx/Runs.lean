import MailMerge.Docx.Reading
import MailMerge.Docx.Writing
import MailMerge.Proofs.Xml.Tag

/-!
# Runs as they are written

The text of a run is written as elements: one for each part without newlines and tabs, and one for each
newline and each tab. These elements are named here, so that what is written and what is read can be
compared with them one after the other.

**`readAs_textElements`**: what is written for a text is read as its elements.
**`spells_textElements`**: the elements of a text spell the text, with newlines for carriage returns.
-/

namespace MailMerge.Docx

open Xml

variable {d : Doctype} {scope : Xml.Scope} {space : Text}

/-! ## Elements in sequence -/

/-- The text is read as the elements, with nothing between them. -/
structure ReadAs (d : Doctype) (scope : Xml.Scope) (t : Text) (es : List Element) : Prop where
  content : Content d scope t (es.map .element)
  tagged : Tagged t
  tails : ∀ e ∈ es, e.tail = []

namespace ReadAs

variable {s t : Text} {es es' : List Element}

theorem nil : ReadAs d scope [] [] :=
  ⟨.nil, .inl rfl, by simp⟩

theorem append (hs : ReadAs d scope s es) (ht : ReadAs d scope t es') :
    ReadAs d scope (s ++ t) (es ++ es') where
  content := List.map_append ▸ hs.content.append ht.content ht.tagged
  tagged := hs.tagged.append ht.tagged
  tails e he := (List.mem_append.1 he).elim (hs.tails e) (ht.tails e)

/-- One element of a text that begins with its tag. -/
theorem single {e : Element} (h : Enclosed d scope ('<' :: t) [.element e]) (he : e.tail = []) :
    ReadAs d scope ('<' :: t) [e] where
  content := h.content
  tagged := .inr rfl
  tails x hx := by rw [List.mem_singleton.1 hx, he]

end ReadAs

/-! ## Elements of markup -/

/-- An element of markup with elements inside. -/
def markupElement (space base : Text) (es : List Element) : Element :=
  .mk { space, base } [] [] es []

/-- In the scope markup has its label, and no element gets further attributes. -/
structure TakesMarkup (d : Doctype) (scope : Xml.Scope) (space : Text) : Prop where
  rules : d.rules = []
  label : scope.lookup ['w'] = some space
  xml : scope.lookup "xml".toList = some Xml.Scope.xmlSpace

theorem isQualifiedName_markup {base : Text} (h : isName base) : isQualifiedName ('w' :: ':' :: base) :=
  isQualifiedName_iff.2 (.inr ⟨['w'], base, rfl, by decide, h⟩)

theorem element_eq (base t : Text) :
    element base t =
      '<' :: ('w' :: ':' :: base ++ '>' :: t ++ '<' :: ('/' :: 'w' :: ':' :: base ++ ['>'])) := by
  show ['<', 'w', ':'] ++ base ++ '>' :: t ++ ['<', '/', 'w', ':'] ++ base ++ ['>'] = _
  simp only [List.append_assoc, List.cons_append, List.nil_append]

/-- **An element of markup is read as it is written.** -/
theorem ReadAs.markup {t : Text} {es : List Element} (hm : TakesMarkup d scope space) (base : Text)
    (hbase : isName base) (h : ReadAs d scope t es) :
    ReadAs d scope (element base t) [markupElement space base es] := by
  have hc := @Enclosed.between _ _ d scope [] _ _ hm.rules (isQualifiedName_markup hbase) (by simp)
    (@enter?_labelled scope ['w'] space base (by decide) hm.label) h.content
  rw [Frame.element_addAll rfl rfl rfl h.tails] at hc
  rw [element_eq]
  exact .single (by simpa [settings, markupElement] using hc) rfl

/-! ## Elements of a text -/

/-- The text with newlines for carriage returns. -/
def returned (t : Text) : Text :=
  t.map fun c => if c = '\r' then '\n' else c

/-- The element of a part without newlines and tabs. -/
def textElement (space t : Text) : Element :=
  .mk { space, base := "t" } [({ space := Xml.Scope.xmlSpace, base := "space" }, "preserve")] t [] []

/-- The elements of a part without newlines and tabs. -/
def chunkElements (space t : Text) : List Element :=
  if t = [] then [] else [textElement space (returned t)]

/-- Lists of elements, with an element between neighbours. -/
def joinElements (sep : Element) : List (List Element) → List Element
  | [] => []
  | [es] => es
  | es :: rest => es ++ sep :: joinElements sep rest

/-- The elements of a line. -/
def lineElements (space t : Text) : List Element :=
  joinElements (markupElement space "tab" []) ((Text.splitOn '\t' t).map (chunkElements space))

/-- The elements of a text. -/
def textElements (space t : Text) : List Element :=
  joinElements (markupElement space "br" []) ((Text.lines t).map (lineElements space))

theorem withNewlines_of_newline_not_mem {t : Text} (h : '\n' ∉ t) : withNewlines t = returned t := by
  induction t with
  | nil => rfl
  | cons c t ih =>
    have hnext : t.head? ≠ some '\n' := by
      intro hn
      exact h (List.mem_cons_of_mem c (List.mem_of_head? hn))
    rw [withNewlines_cons (.inr hnext), ih fun ht => h (List.mem_cons_of_mem c ht)]
    rfl

theorem mem_of_mem_splitOn {sep c : Char} {t u : Text} (hu : u ∈ Text.splitOn sep t) (hc : c ∈ u) :
    c ∈ t ∧ c ≠ sep := by
  induction t generalizing u with
  | nil =>
    rw [List.mem_singleton.1 hu] at hc
    cases hc
  | cons x t ih =>
    rw [Text.splitOn] at hu
    split at hu
    · rcases List.mem_cons.1 hu with rfl | hu
      · cases hc
      · obtain ⟨hmem, hne⟩ := ih hu hc
        exact ⟨List.mem_cons_of_mem x hmem, hne⟩
    · next hx =>
      split at hu
      · next hs => exact absurd hs (Text.splitOn_ne_nil sep t)
      · next piece pieces hs =>
        rw [hs] at ih
        rcases List.mem_cons.1 hu with rfl | hu
        · rcases List.mem_cons.1 hc with rfl | hc
          · exact ⟨List.mem_cons_self, hx⟩
          · obtain ⟨hmem, hne⟩ := ih List.mem_cons_self hc
            exact ⟨List.mem_cons_of_mem x hmem, hne⟩
        · obtain ⟨hmem, hne⟩ := ih (List.mem_cons_of_mem piece hu) hc
          exact ⟨List.mem_cons_of_mem x hmem, hne⟩

theorem readAs_chunkElements (hm : TakesMarkup d scope space) {t : Text} (hlegal : ∀ c ∈ t, isLegal c)
    (hline : '\n' ∉ t) : ReadAs d scope (writeChunk t) (chunkElements space t) := by
  unfold writeChunk chunkElements
  split
  · exact .nil
  · have hg := @enter?_labelled_attribute scope ['w'] space ['t'] "xml".toList Xml.Scope.xmlSpace
      "space".toList "preserve".toList (by decide) hm.label (by decide) hm.xml (by decide)
    have hc := Enclosed.between hm.rules (by decide) (by decide) hg (.escape hlegal)
    rw [Frame.element_addAll_chars rfl rfl, withNewlines_of_newline_not_mem hline] at hc
    exact .single hc rfl

/-- An element of markup that is written as one tag. -/
theorem ReadAs.markupTag (hm : TakesMarkup d scope space) (base : Text) (hbase : isName base) :
    ReadAs d scope ('<' :: ('w' :: ':' :: base ++ ['/', '>'])) [markupElement space base []] := by
  have hg := @enter?_labelled scope ['w'] space base (by decide) hm.label
  have hc := @Enclosed.closed _ d scope [] _ hm.rules (isQualifiedName_markup hbase) (by simp) hg
  rw [settings, List.flatMap_nil, List.append_nil] at hc
  exact .single hc rfl

theorem readAs_join {sep : Text} {e : Element} {f : Text → Text} {g : Text → List Element}
    (hsep : ReadAs d scope sep [e]) {ts : List Text} (h : ∀ t ∈ ts, ReadAs d scope (f t) (g t)) :
    ReadAs d scope (Text.join sep (ts.map f)) (joinElements e (ts.map g)) := by
  induction ts with
  | nil => exact .nil
  | cons t ts ih =>
    have ht := h t List.mem_cons_self
    have ih := ih fun u hu => h u (List.mem_cons_of_mem t hu)
    cases ts with
    | nil => exact ht
    | cons u us =>
      have hall := (ht.append hsep).append ih
      rwa [List.append_assoc (g t), List.singleton_append] at hall

theorem readAs_lineElements (hm : TakesMarkup d scope space) {t : Text} (hlegal : ∀ c ∈ t, isLegal c)
    (hline : '\n' ∉ t) :
    ReadAs d scope (writeLine t) (lineElements space t) := by
  have hsep : ReadAs d scope "<w:tab/>".toList [markupElement space "tab" []] :=
    ReadAs.markupTag hm "tab" (by decide)
  refine readAs_join hsep ?_
  intro u hu
  refine readAs_chunkElements hm (fun c hc => hlegal c (mem_of_mem_splitOn hu hc).1) ?_
  intro hc
  exact hline (mem_of_mem_splitOn hu hc).1

/-- **What is written for a text is read as its elements.** -/
theorem readAs_textElements (hm : TakesMarkup d scope space) {t : Text} (hlegal : ∀ c ∈ t, isLegal c) :
    ReadAs d scope (Text.join "<w:br/>".toList ((Text.lines t).map writeLine)) (textElements space t) := by
  have hsep : ReadAs d scope "<w:br/>".toList [markupElement space "br" []] :=
    ReadAs.markupTag hm "br" (by decide)
  refine readAs_join hsep ?_
  intro u hu
  refine readAs_lineElements hm (fun c hc => hlegal c (mem_of_mem_splitOn hu hc).1) ?_
  intro hc
  exact (mem_of_mem_splitOn hu hc).2 rfl

/-! ## Texts of elements -/

/-- The elements stand for a text in a run. -/
def Spells (es : List Element) (t : Text) : Prop :=
  ∃ pieces, es.mapM textOf? = some pieces ∧ pieces.flatten = t

namespace Spells

variable {es es' : List Element} {s t : Text} {e : Element}

theorem nil : Spells [] [] :=
  ⟨[], rfl, rfl⟩

theorem single (h : textOf? e = some t) : Spells [e] t :=
  ⟨[t], by simp [h], by simp⟩

theorem append (hs : Spells es s) (ht : Spells es' t) : Spells (es ++ es') (s ++ t) := by
  obtain ⟨ps, hps, rfl⟩ := hs
  obtain ⟨qs, hqs, rfl⟩ := ht
  exact ⟨ps ++ qs, by simp [List.mapM_append, hps, hqs], by simp⟩

theorem join {c : Char} {f : Text → Text} {g : Text → List Element} (hsep : textOf? e = some [c])
    {ts : List Text} (h : ∀ t ∈ ts, Spells (g t) (f t)) :
    Spells (joinElements e (ts.map g)) (Text.join [c] (ts.map f)) := by
  induction ts with
  | nil => exact nil
  | cons t ts ih =>
    have ht := h t List.mem_cons_self
    have ih := ih fun u hu => h u (List.mem_cons_of_mem t hu)
    cases ts with
    | nil => exact ht
    | cons u us =>
      have hall := (ht.append (single hsep)).append ih
      rwa [List.append_assoc (g t), List.singleton_append] at hall

end Spells

theorem join_map_returned {c : Char} (hc : c ≠ '\r') (ts : List Text) :
    Text.join [c] (ts.map returned) = returned (Text.join [c] ts) := by
  induction ts with
  | nil => rfl
  | cons t ts ih =>
    cases ts with
    | nil => rfl
    | cons u us =>
      have hcons : ∀ t u us, Text.join [c] (t :: u :: us) = t ++ [c] ++ Text.join [c] (u :: us) := by
        intro t u us
        rfl
      rw [List.map_cons, List.map_cons, hcons, ← List.map_cons, ih, hcons]
      simp [returned, hc]

theorem spells_chunkElements (t : Text) : Spells (chunkElements markupSpace t) (returned t) := by
  unfold chunkElements
  split
  · next h => exact h ▸ .nil
  · have hname : (textElement markupSpace (returned t)).name = Tag.text := rfl
    refine .single ?_
    rw [textOf?, if_pos hname]
    rfl

theorem spells_lineElements (t : Text) : Spells (lineElements markupSpace t) (returned t) := by
  have hsep : textOf? (markupElement markupSpace "tab" []) = some ['\t'] := by decide +kernel
  have h := Spells.join hsep fun u (_ : u ∈ Text.splitOn '\t' t) => spells_chunkElements u
  rwa [join_map_returned (by decide), Text.join_splitOn] at h

/-- **The elements of a text spell the text**, with newlines for carriage returns. -/
theorem spells_textElements (t : Text) : Spells (textElements markupSpace t) (returned t) := by
  have hsep : textOf? (markupElement markupSpace "br" []) = some ['\n'] := by decide +kernel
  have h := Spells.join hsep fun u (_ : u ∈ Text.lines t) => spells_lineElements u
  rwa [join_map_returned (by decide), Text.lines, Text.join_splitOn] at h

theorem returned_of_not_mem {t : Text} (h : '\r' ∉ t) : returned t = t := by
  have hc : ∀ c ∈ t, (if c = '\r' then '\n' else c) = c := by
    intro c hc
    have hne : c ≠ '\r' := by
      rintro rfl
      exact h hc
    exact if_neg hne
  rw [returned, List.map_congr_left hc, List.map_id']

/-! ## Runs -/

theorem mem_of_textOf? {e : Element} {t : Text} (h : textOf? e = some t) :
    e.name ∈ [Tag.text, Tag.tab, Tag.lineBreak, Tag.carriageReturn] := by
  unfold textOf? at h
  split at h
  · next hn => simp [hn]
  · split at h
    · next hn => simp [hn]
    · split at h
      · next hn => rcases hn.1 with hn | hn <;> simp [hn]
      · cases h

theorem name_of_textOf? {e : Element} {t : Text} (h : textOf? e = some t) :
    e.name ≠ Tag.runProperties ∧ e.name ≠ Tag.renderedPageBreak := by
  have hne : ∀ n ∈ [Tag.text, Tag.tab, Tag.lineBreak, Tag.carriageReturn],
      n ≠ Tag.runProperties ∧ n ≠ Tag.renderedPageBreak := by
    decide
  exact hne e.name (mem_of_textOf? h)

theorem Spells.name {es : List Element} {t : Text} (h : Spells es t) :
    ∀ e ∈ es, e.name ≠ Tag.runProperties ∧ e.name ≠ Tag.renderedPageBreak := by
  obtain ⟨ps, hps, -⟩ := h
  induction es generalizing ps with
  | nil => simp
  | cons e es ih =>
    simp only [List.mapM_cons, Option.bind_eq_bind, Option.bind_eq_some_iff, Option.pure_def,
      Option.some.injEq] at hps
    obtain ⟨p, hp, qs, hqs, -⟩ := hps
    intro x hx
    rcases List.mem_cons.1 hx with rfl | hx
    · exact name_of_textOf? hp
    · exact ih qs hqs x hx

/-- Without a child of the name there is nothing to be kept. -/
theorem childXml_eq_nil {e : Element} {name : Name} (l : Labelling)
    (h : ∀ c ∈ e.children, c.name ≠ name) : l.childXml e name = [] := by
  have hnone : e.child? name = none := by
    rw [Element.child?, List.find?_eq_none]
    simpa using h
  rw [Labelling.childXml, hnone]
  rfl

/-- A run whose elements spell a text is read as this text. -/
theorem runs_of_spells (l : Labelling) {es : List Element} {t : Text} (h : Spells es t) (ht : t ≠ []) :
    runs l (markupElement markupSpace "r" es) = [{ text := t }] := by
  have hstyle : l.childXml (markupElement markupSpace "r" es) Tag.runProperties = [] :=
    childXml_eq_nil l fun c hc => (h.name c hc).1
  have hcontent : contentOf (markupElement markupSpace "r" es) = es := by
    refine List.filter_eq_self.2 ?_
    intro c hc
    simpa using h.name c hc
  obtain ⟨ps, hps, rfl⟩ := h
  unfold runs
  rw [hstyle, hcontent, hps]
  cases ps with
  | nil => exact absurd rfl ht
  | cons p ps => rfl

/-- The run is text without properties, of characters that are read as they are written. -/
def isPlainRun (r : Run) : Bool :=
  !r.text.isEmpty && r.text.all (fun c => isLegal c && c != '\r') && r.style.isEmpty && r.raw.isNone

theorem eq_of_isPlainRun {r : Run} (h : isPlainRun r) :
    r = { text := r.text } ∧ r.text ≠ [] ∧ (∀ c ∈ r.text, isLegal c) ∧ '\r' ∉ r.text := by
  obtain ⟨text, style, raw⟩ := r
  simp only [isPlainRun, Bool.and_eq_true, List.all_eq_true, Option.isNone_iff_eq_none,
    List.isEmpty_iff, Bool.not_eq_true', bne_iff_ne] at h
  obtain ⟨⟨⟨hne, hall⟩, rfl⟩, rfl⟩ := h
  refine ⟨rfl, by simpa using hne, fun c hc => (hall c hc).1, fun hr => (hall _ hr).2 rfl⟩

/-- A run of text is an element of markup around its style and its text. -/
theorem writeTextRun_eq {t : Text} (h : t ≠ []) (style : Text) :
    writeTextRun t style =
      element ['r'] (style ++ Text.join "<w:br/>".toList ((Text.lines t).map writeLine)) := by
  simp [writeTextRun, h, element]

/-- **A plain run is read as it is written.** -/
theorem readAs_run (hm : TakesMarkup d scope space) {r : Run} (h : isPlainRun r) :
    ReadAs d scope (writeRun r) [markupElement space "r" (textElements space r.text)] := by
  obtain ⟨heq, hne, hlegal, -⟩ := eq_of_isPlainRun h
  have hwrite : writeRun r =
      element ['r'] (Text.join "<w:br/>".toList ((Text.lines r.text).map writeLine)) := by
    rw [heq, writeRun, Option.getD_none, writeTextRun_eq hne, List.nil_append]
  rw [hwrite]
  exact .markup hm ['r'] (by decide) (readAs_textElements hm hlegal)

theorem runs_of_isPlainRun (l : Labelling) {r : Run} (h : isPlainRun r) :
    runs l (markupElement markupSpace "r" (textElements markupSpace r.text)) = [r] := by
  obtain ⟨heq, hne, -, hreturn⟩ := eq_of_isPlainRun h
  have hspells := spells_textElements r.text
  rw [returned_of_not_mem hreturn] at hspells
  rw [runs_of_spells l hspells hne, ← heq]

end MailMerge.Docx
