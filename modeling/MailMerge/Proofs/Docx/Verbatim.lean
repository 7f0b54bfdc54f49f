import MailMerge.Proofs.Docx.Fragments
import MailMerge.Proofs.Docx.Runs
import MailMerge.Proofs.Xml.Filled

/-!
# Elements that are carried along

The text in an element is that of its text elements, with tabs and line breaks, in the order of the document
and without what is deleted. A text of markup carries the text in the elements that are read from it: texts in
sequence carry theirs one after the other (`Carries.append`), and an element of markup carries what is in it
(`Carries.markup`).

An element that is written back is read as it was, if nothing is cut out of it but declarations of its own
first tag. Its names without a namespace are read in the namespace of names without a label, and its line ends
as newlines.

**`content_write`**: an element inside a fragment is read as it was. The induction is on the element and on its
children.

**`carries_verbatim`**: an element that is written back carries the text in it.
-/

namespace MailMerge.Docx

open Xml

/-- The element of deleted text. -/
def deletion : Name := tag "del"

mutual

/-- The text in an element. -/
def textIn : Element → Text
  | .mk name attributes text children tail =>
    if name = deletion then []
    else (textOf? (.mk name attributes text children tail)).getD [] ++ textInAll children

/-- The text in elements, one after the other. -/
def textInAll : List Element → Text
  | [] => []
  | e :: es => textIn e ++ textInAll es

end

theorem textInAll_eq (es : List Element) : textInAll es = es.flatMap textIn := by
  induction es with
  | nil => rw [textInAll, List.flatMap_nil]
  | cons e es ih => rw [textInAll, ih, List.flatMap_cons]

theorem textIn_eq (e : Element) :
    textIn e = if e.name = deletion then [] else (textOf? e).getD [] ++ e.children.flatMap textIn := by
  cases e with
  | mk name attributes text children tail =>
    rw [textIn, textInAll_eq]
    rfl

/-- Elements of the name have text in their children only. -/
def HasOnlyInner (name : Name) : Prop :=
  name ∉ [deletion, Tag.text, Tag.tab, Tag.lineBreak, Tag.carriageReturn]

instance (name : Name) : Decidable (HasOnlyInner name) :=
  inferInstanceAs (Decidable (name ∉ _))

theorem textIn_of_hasOnlyInner {e : Element} (h : HasOnlyInner e.name) :
    textIn e = e.children.flatMap textIn := by
  simp only [HasOnlyInner, List.mem_cons, List.not_mem_nil, or_false, not_or] at h
  obtain ⟨hdel, htext, htab, hbreak, hreturn⟩ := h
  have hnone : textOf? e = none := by
    rw [textOf?, if_neg htext, if_neg htab, if_neg fun h => h.1.elim hbreak hreturn]
  rw [textIn_eq, if_neg hdel, hnone]
  rfl

/-- What follows an element is not in it. -/
theorem textIn_withTail (e : Element) (t : Text) : textIn (e.withTail t) = textIn e := by
  rw [textIn_eq, textIn_eq]
  rfl

/-! ## The text in items -/

/-- The text in an item. Characters between elements are none. -/
def itemText : Item → Text
  | .char _ => []
  | .element e => textIn e

/-- The text in the children of an open element. -/
def frameText (f : Frame) : Text :=
  f.children.reverse.flatMap textIn

theorem frameText_settle (f : Frame) : frameText f.settle = frameText f := by
  unfold frameText Frame.settle
  split
  · next h => rw [h]
  · next e es h => simp [h, textIn_withTail]

theorem frameText_add (f : Frame) (item : Item) : frameText (f.add item) = frameText f ++ itemText item := by
  cases item with
  | char c => exact (List.append_nil _).symm
  | element e =>
    rw [← frameText_settle f]
    simp [frameText, Frame.add, itemText]

theorem frameText_addAll (f : Frame) (items : List Item) :
    frameText (f.addAll items) = frameText f ++ items.flatMap itemText := by
  induction items generalizing f with
  | nil => exact (List.append_nil _).symm
  | cons item items ih =>
    have := ih (f.add item)
    rw [frameText_add, List.append_assoc, ← List.flatMap_cons] at this
    exact this

theorem name_addAll (f : Frame) (items : List Item) : (f.addAll items).name = f.name := by
  induction items generalizing f with
  | nil => rfl
  | cons item items ih =>
    refine (ih (f.add item)).trans ?_
    cases item with
    | char c => rfl
    | element e => exact f.name_settle

theorem name_element (f : Frame) : f.element.name = f.name :=
  f.name_settle

/-- The text in an element that has been closed. -/
theorem textIn_element {f : Frame} (h : HasOnlyInner f.name) : textIn f.element = frameText f := by
  rw [textIn_of_hasOnlyInner (by rwa [name_element]), ← frameText_settle]
  rfl

/-! ## Texts that carry text -/

/-- The text is content in which there is the second text. It begins with a tag if it is not empty. -/
structure Carries (d : Doctype) (scope : Xml.Scope) (t s : Text) : Prop where
  content : ∃ items, Content d scope t items ∧ items.flatMap itemText = s
  tagged : Tagged t

variable {d : Doctype} {scope : Xml.Scope} {s s' t u : Text} {es : List Element}

theorem ReadAs.carries (h : ReadAs d scope t es) : Carries d scope t (es.flatMap textIn) where
  content := ⟨_, h.content, by rw [List.flatMap_map]; rfl⟩
  tagged := h.tagged

namespace Carries

theorem nil : Carries d scope [] [] :=
  ⟨⟨[], .nil, rfl⟩, .inl rfl⟩

theorem append (h : Carries d scope t s) (h' : Carries d scope u s') : Carries d scope (t ++ u) (s ++ s') := by
  obtain ⟨⟨is, his, rfl⟩, ht⟩ := h
  obtain ⟨⟨js, hjs, rfl⟩, hu⟩ := h'
  exact ⟨⟨is ++ js, his.append hjs hu, List.flatMap_append⟩, ht.append hu⟩

theorem flatMap {α : Type} {f g : α → Text} {xs : List α} (h : ∀ x ∈ xs, Carries d scope (f x) (g x)) :
    Carries d scope (xs.flatMap f) (xs.flatMap g) := by
  induction xs with
  | nil => exact nil
  | cons x xs ih =>
    exact (h x List.mem_cons_self).append (ih fun y hy => h y (List.mem_cons_of_mem x hy))

/-- **An element of markup carries what is in it.** -/
theorem markup (hm : TakesMarkup d scope markupSpace) (base : Text) (hbase : isName base)
    (hname : HasOnlyInner (tag base)) (h : Carries d scope t s) : Carries d scope (element base t) s := by
  obtain ⟨⟨is, his, rfl⟩, -⟩ := h
  have hc := @Enclosed.between _ _ d scope [] _ _ hm.rules (isQualifiedName_markup hbase) (by simp)
    (@enter?_labelled scope ['w'] markupSpace base (by decide) hm.label) his
  rw [element_eq]
  refine ⟨⟨_, by simpa [settings] using hc.content, ?_⟩, .inr rfl⟩
  rw [List.flatMap_cons, List.flatMap_nil, List.append_nil, itemText,
    textIn_element (by rw [name_addAll]; exact hname), frameText_addAll]
  rfl

end Carries

/-! ## Text runs -/

theorem flatMap_textIn_of_spells (h : Spells es t) (hinner : ∀ e ∈ es, e.children = []) :
    es.flatMap textIn = t := by
  obtain ⟨pieces, hpieces, rfl⟩ := h
  induction es generalizing pieces with
  | nil =>
    obtain rfl := Option.some.inj hpieces
    rfl
  | cons e es ih =>
    simp only [List.mapM_cons, Option.bind_eq_bind, Option.bind_eq_some_iff, Option.pure_def,
      Option.some.injEq] at hpieces
    obtain ⟨piece, hpiece, pieces, hrest, rfl⟩ := hpieces
    rw [List.forall_mem_cons] at hinner
    have hdel : e.name ≠ deletion := by
      have hnames : ∀ n ∈ [Tag.text, Tag.tab, Tag.lineBreak, Tag.carriageReturn], n ≠ deletion := by
        decide
      exact hnames e.name (mem_of_textOf? hpiece)
    rw [List.flatMap_cons, List.flatten_cons, ih hinner.2 pieces hrest, textIn_eq, if_neg hdel, hpiece, hinner.1]
    simp

theorem mem_joinElements {sep e : Element} {ess : List (List Element)} (h : e ∈ joinElements sep ess) :
    e = sep ∨ ∃ es ∈ ess, e ∈ es := by
  induction ess with
  | nil => cases h
  | cons es ess ih =>
    cases ess with
    | nil => exact .inr ⟨es, List.mem_cons_self, h⟩
    | cons es' ess =>
      rcases List.mem_append.1 h with h | h
      · exact .inr ⟨es, List.mem_cons_self, h⟩
      · rcases List.mem_cons.1 h with h | h
        · exact .inl h
        · refine (ih h).imp_right ?_
          rintro ⟨x, hx, he⟩
          exact ⟨x, List.mem_cons_of_mem es hx, he⟩

theorem children_of_mem_textElements {e : Element} (h : e ∈ textElements markupSpace t) : e.children = [] := by
  rcases mem_joinElements h with rfl | ⟨es, hes, he⟩
  · rfl
  · obtain ⟨line, -, rfl⟩ := List.mem_map.1 hes
    rcases mem_joinElements he with rfl | ⟨es, hes, he⟩
    · rfl
    · obtain ⟨chunk, -, rfl⟩ := List.mem_map.1 hes
      unfold chunkElements at he
      split at he
      · cases he
      · obtain rfl := List.mem_singleton.1 he
        rfl

/-- **A run of text carries its text**, with a style that carries none. -/
theorem carries_writeTextRun (hm : TakesMarkup d scope markupSpace) {style : Text}
    (hstyle : Carries d scope style []) (hlegal : ∀ c ∈ t, isLegal c) (hreturn : '\r' ∉ t) :
    Carries d scope (writeTextRun t style) t := by
  by_cases ht : t = []
  · rw [writeTextRun, if_pos ht, ht]
    exact .nil
  · rw [writeTextRun_eq ht]
    have hspells := spells_textElements t
    rw [returned_of_not_mem hreturn] at hspells
    have htext := (readAs_textElements hm hlegal).carries
    rw [flatMap_textIn_of_spells hspells fun e he => children_of_mem_textElements he] at htext
    have := hstyle.append htext
    rw [List.nil_append] at this
    exact .markup hm ['r'] (by decide) (by decide) this

end MailMerge.Docx

namespace MailMerge.Docx

open Xml

variable {d : Doctype} {scope : Xml.Scope} {registered used : Labels} {space : Text}

/-! ## Items of elements -/

/-- The items that elements are built from. -/
def itemsOf (es : List Element) : List Item :=
  es.flatMap fun e => .element (e.withTail []) :: e.tail.map .char

theorem withTail_tail (e : Element) : e.withTail e.tail = e := by
  cases e with
  | mk => rfl

theorem pending_settle (f : Frame) : f.settle.pending = [] := by
  unfold Frame.settle
  split <;> rfl

theorem settle_of_children {f : Frame} {e : Element} {es : List Element} (h : f.children = e :: es) :
    f.settle = { f with children := e.withTail f.pending.reverse :: es, pending := [] } := by
  rw [Frame.settle, h]

theorem settle_addAll_item (f : Frame) (e : Element) :
    (f.addAll (.element (e.withTail []) :: e.tail.map .char)).settle =
      { f.settle with children := e :: f.settle.children } := by
  have hadd : f.addAll (.element (e.withTail []) :: e.tail.map .char) =
      { f.settle with children := e.withTail [] :: f.settle.children, pending := e.tail.reverse } := by
    have hchars := Frame.addAll_chars (f.add (.element (e.withTail []))) e.tail
    rw [show (f.add (.element (e.withTail []))).pending = [] from pending_settle f, List.append_nil] at hchars
    exact hchars
  have hlast : (e.withTail []).withTail e.tail.reverse.reverse = e := by
    rw [List.reverse_reverse]
    exact withTail_tail e
  have hpending := pending_settle f
  rw [hadd, settle_of_children rfl, hlast]
  cases hs : f.settle with
  | mk label scope name attributes text children pending =>
    rw [hs] at hpending
    obtain rfl : pending = [] := hpending
    rfl

theorem settle_addAll_itemsOf (f : Frame) (es : List Element) :
    (f.addAll (itemsOf es)).settle = { f.settle with children := es.reverse ++ f.settle.children } := by
  induction es generalizing f with
  | nil => rfl
  | cons e es ih =>
    rw [itemsOf, List.flatMap_cons, Frame.addAll_append, ← itemsOf, ih, settle_addAll_item]
    simp

/-- **An element is built from its text and from the items of its children.** -/
theorem element_addAll_itemsOf {f : Frame} (hchildren : f.children = []) (hpending : f.pending = []) (t : Text)
    (es : List Element) :
    (f.addAll (t.map .char ++ itemsOf es)).element = .mk f.name f.attributes t es [] := by
  rw [Frame.addAll_append, Frame.element, settle_addAll_itemsOf, Frame.addAll_chars, Frame.settle, hchildren]
  simp [hpending]

/-! ## Elements as they are read again -/

mutual

/-- The element as it is read where names without a label are in the namespace. -/
def reread (space : Text) : Element → Element
  | .mk name attributes text children tail =>
    .mk (within space name) attributes (withNewlines text) (rereadAll space children) (withNewlines tail)

/-- The elements as they are read again. -/
def rereadAll (space : Text) : List Element → List Element
  | [] => []
  | e :: es => reread space e :: rereadAll space es

end

section

variable {labels : Labels} {name : Name} {attributes : List (Name × Text)} {text tail : Text}
  {children : List Element}

/-- **An element in which nothing is cut out is read as it was**, if its children are. Declarations may stand
before its attributes. -/
theorem content_element (hd : d.rules = []) (hw : Writing registered used (bindAll labels scope))
    (hlabels : ∀ e ∈ labels, IsLabel e.2 ∧ IsBinding e.2 e.1) (hnodup : (labels.map (·.2)).Nodup)
    (he : Element.IsSound (.mk name attributes text children tail))
    (hl : Labelled used (.mk name attributes text children tail))
    (hspace : ((bindAll labels scope).lookup []).getD [] = space)
    (hchildren : Content d (bindAll labels scope) (Element.writeAll (Labels.qualify registered used) children)
      (itemsOf (rereadAll space children))) :
    Content d scope ('<' :: Labels.qualify registered used name ++ (settings (declared labels) ++
        (settings (qualified (Labels.qualify registered used) attributes) ++
          (ending (Labels.qualify registered used) name text children ++ escape tail))))
      (itemsOf [reread space (.mk name attributes text children tail)]) := by
  obtain ⟨htop, -⟩ := Element.isSound_mk.1 he
  obtain ⟨hname, hattributes, -⟩ := labelled_mk hl
  have hsound : ∀ a ∈ attributes, a.1.IsAttribute ∧ HasLabel used a.1.space :=
    fun a ha => ⟨(htop.attributes a ha).1, hattributes a ha⟩
  have hn : name.IsSound := htop.name
  have hg := enter?_qualified hw (fun e he => (hlabels e he).2) hnodup hn hname htop.nodup hsound
  rw [hspace] at hg
  have hqualified := hw.isQualifiedName hn hname
  have hwritable : ∀ a ∈ declared labels ++ qualified (Labels.qualify registered used) attributes, IsWritable a := by
    intro a ha
    rcases List.mem_append.1 ha with ha | ha
    · exact isWritable_declared (fun e he => ⟨(hlabels e he).1, (hlabels e he).2.toIsSpace⟩) a ha
    · obtain ⟨b, hb, rfl⟩ := List.mem_map.1 ha
      exact ⟨hw.isQualifiedName (hsound b hb).1.toIsSound (hsound b hb).2, (htop.attributes b hb).2⟩
  have hitems : itemsOf [reread space (.mk name attributes text children tail)] =
      .element (.mk (within space name) attributes (withNewlines text) (rereadAll space children) []) ::
        (withNewlines tail).map .char := by
    rw [reread]
    exact List.append_nil _
  have hafter : Content d scope (escape tail) ((withNewlines tail).map .char) := .escape htop.tail
  rw [hitems]
  unfold ending
  split
  · next hempty =>
    obtain ⟨rfl, hnone⟩ := hempty
    obtain rfl := List.isEmpty_iff.1 hnone
    have hcontent := (Enclosed.single hd hqualified hwritable hg).append hafter
    rw [settings_append] at hcontent
    simpa [withNewlines, rereadAll, Frame.element, Frame.settle, Element.attributes] using hcontent
  · have hinside := (@Content.escape d (bindAll labels scope) _ htop.text).append hchildren (tagged_writeAll _ _)
    have hcontent := (Enclosed.between hd hqualified hwritable hg hinside).append hafter
    rw [settings_append, element_addAll_itemsOf rfl rfl] at hcontent
    simpa [Element.attributes, Element.text] using hcontent

end

theorem itemsOf_cons (e : Element) (es : List Element) : itemsOf (e :: es) = itemsOf [e] ++ itemsOf es := by
  simp [itemsOf]

mutual

/-- **An element inside a fragment is read as it was.** -/
theorem content_write (hd : d.rules = []) (hw : Writing registered used scope) {e : Element} (he : e.IsSound)
    (hl : Labelled used e) :
    Content d scope (Element.write (Labels.qualify registered used) [] e)
      (itemsOf [reread ((scope.lookup []).getD []) e]) := by
  cases e with
  | mk name attributes text children tail =>
    obtain ⟨-, hsound⟩ := Element.isSound_mk.1 he
    obtain ⟨-, -, hlabelled⟩ := labelled_mk hl
    have hcontent := @content_element d scope registered used _ [] _ _ _ _ _ hd hw (by simp) (by simp) he hl rfl
      (content_writeAll hd hw hsound hlabelled)
    rw [write_mk]
    simpa [declared, settings, bindAll] using hcontent

/-- Elements inside a fragment are read as they were. -/
theorem content_writeAll (hd : d.rules = []) (hw : Writing registered used scope) {es : List Element}
    (hes : ∀ e ∈ es, e.IsSound) (hl : ∀ e ∈ es, Labelled used e) :
    Content d scope (Element.writeAll (Labels.qualify registered used) es)
      (itemsOf (rereadAll ((scope.lookup []).getD []) es)) := by
  cases es with
  | nil =>
    rw [Element.writeAll, rereadAll]
    exact .nil
  | cons e es =>
    rw [List.forall_mem_cons] at hes hl
    rw [Element.writeAll, rereadAll, itemsOf_cons]
    exact (content_write hd hw hes.1 hl.1).append (content_writeAll hd hw hes.2 hl.2) (tagged_writeAll _ es)

end

/-! ## The text in them -/

/-- The element has no carriage return in its texts. -/
def HasNoReturn (e : Element) : Prop :=
  ∀ x ∈ e.all, x.name = Tag.text → '\r' ∉ x.text

theorem hasNoReturn_mk {name : Name} {attributes : List (Name × Text)} {text tail : Text} {children : List Element} :
    HasNoReturn (.mk name attributes text children tail) ↔
      (name = Tag.text → '\r' ∉ text) ∧ ∀ c ∈ children, HasNoReturn c := by
  simp only [HasNoReturn, Element.all, List.forall_mem_cons, Element.mem_allOf]
  refine and_congr_right fun _ => ?_
  constructor
  · intro h c hc x hx
    exact h x ⟨c, hc, hx⟩
  · rintro h x ⟨c, hc, hx⟩
    exact h c hc x hx

theorem within_eq_iff (h : space ≠ markupSpace) {n : Name} {base : Text} :
    within space n = tag base ↔ n = tag base := by
  unfold within
  split
  · next hn =>
    constructor
    · intro he
      exact absurd (congrArg Name.space he) h
    · rintro rfl
      cases hn
  · rfl

/-- What an element adds to a text depends on its name among those of markup, its attributes and its text. -/
theorem textOf?_congr {e e' : Element} (hname : ∀ base, e'.name = tag base ↔ e.name = tag base)
    (hattributes : e'.attributes = e.attributes) (htext : e.name = Tag.text → e'.text = e.text) :
    textOf? e' = textOf? e := by
  have hbreaks : breaksLine e' = breaksLine e := by
    rw [breaksLine, breaksLine, Element.attribute?, Element.attribute?, hattributes]
  have ht' : e'.name = Tag.text ↔ e.name = Tag.text := hname "t"
  by_cases ht : e.name = Tag.text
  · rw [textOf?, textOf?, if_pos (ht'.2 ht), if_pos ht, htext ht]
  · rw [textOf?, textOf?, if_neg (mt ht'.1 ht), if_neg ht, hbreaks]
    have hbreak : e'.name = Tag.lineBreak ∨ e'.name = Tag.carriageReturn ↔
        e.name = Tag.lineBreak ∨ e.name = Tag.carriageReturn :=
      or_congr (hname "br") (hname "cr")
    exact if_congr (hname "tab") rfl (if_congr (and_congr_left' hbreak) rfl rfl)

mutual

/-- The text in an element is read again. -/
theorem textIn_reread (h : space ≠ markupSpace) {e : Element} (he : HasNoReturn e) :
    textIn (reread space e) = textIn e := by
  cases e with
  | mk name attributes text children tail =>
    obtain ⟨htext, hchildren⟩ := hasNoReturn_mk.1 he
    have hown : textOf? (.mk (within space name) attributes (withNewlines text) (rereadAll space children)
        (withNewlines tail)) = textOf? (.mk name attributes text children tail) :=
      textOf?_congr (fun base => within_eq_iff h) rfl fun ht => withNewlines_of_not_mem (htext ht)
    rw [reread, textIn, textIn, hown, textIn_rereadAll h hchildren]
    exact if_congr (within_eq_iff h) rfl rfl

theorem textIn_rereadAll (h : space ≠ markupSpace) {es : List Element} (he : ∀ e ∈ es, HasNoReturn e) :
    textInAll (rereadAll space es) = textInAll es := by
  cases es with
  | nil => rw [rereadAll]
  | cons e es =>
    rw [List.forall_mem_cons] at he
    rw [rereadAll, textInAll, textInAll, textIn_reread h he.1, textIn_rereadAll h he.2]

end

theorem flatMap_itemText_itemsOf (es : List Element) : (itemsOf es).flatMap itemText = es.flatMap textIn := by
  induction es with
  | nil => rfl
  | cons e es ih =>
    have hchars : (e.tail.map Item.char).flatMap itemText = [] := by
      rw [List.flatMap_map]
      exact List.flatMap_eq_nil_iff.2 fun c _ => rfl
    rw [itemsOf, List.flatMap_cons, List.flatMap_append, ← itemsOf, ih, List.flatMap_cons, List.flatMap_cons, hchars,
      List.append_nil, itemText, textIn_withTail]

/-! ## Elements that are written back -/

/-- Nothing is cut out of the element but declarations of its own first tag. -/
def Labelling.isWhole (l : Labelling) (e : Element) : Bool :=
  let t := Element.write (Labels.qualify l.labels (e.labels l.labels)) [] e
  l.declared.strip t = t

/-- What a part has to be like for elements to be carried along: names without a label are not in the namespace
of markup. -/
structure Labelling.Carries (l : Labelling) (d : Doctype) (scope : Xml.Scope) : Prop where
  inForce : l.InForce scope
  markup : TakesMarkup d scope markupSpace
  unlabelled : scope.lookup [] ≠ some markupSpace

/-- **An element that is written back carries the text in it.** -/
theorem carries_verbatim {l : Labelling} (h : l.Carries d scope) {e : Element} (he : e.IsSound)
    (hreturn : HasNoReturn e) (hwhole : l.isWhole e) : Docx.Carries d scope (l.verbatim e) (textIn e) := by
  obtain ⟨name, attributes, text, children, tail⟩ := e
  obtain ⟨used, labels, hused, hw, hlabels, hnodup, hlabelled, hverbatim⟩ := exists_verbatim h.inForce he
  obtain ⟨htop, hsound⟩ := Element.isSound_mk.1 he
  obtain ⟨hname, -, hchildren⟩ := labelled_mk hlabelled
  have hblank : ∀ c ∈ '<' :: Labels.qualify l.labels used name, ¬ Text.isBlank c :=
    List.forall_mem_cons.2 ⟨by decide, not_isBlank_of_isQualifiedName (hw.isQualifiedName htop.name hname)⟩
  have hlookup : ((bindAll labels scope).lookup []).getD [] = (scope.lookup []).getD [] := by
    rw [lookup_bindAll_of_notMem]
    intro hmem
    obtain ⟨e, he, hnil⟩ := List.mem_map.1 hmem
    have := (hlabels e he).1.name
    rw [hnil] at this
    cases this
  have hspace : (scope.lookup []).getD [] ≠ markupSpace := by
    intro hspace
    cases hl : scope.lookup [] with
    | none =>
      rw [hl] at hspace
      cases hspace
    | some s =>
      rw [hl] at hspace
      exact h.unlabelled (hl.trans (congrArg some hspace))
  rw [Labelling.isWhole, ← hused, write_mk, List.append_nil, strip_append_of_not_isBlank _ hblank,
    decide_eq_true_eq] at hwhole
  rw [hverbatim, List.append_cancel_left hwhole]
  have hcontent := content_element h.markup.rules hw hlabels hnodup he hlabelled rfl
    (content_writeAll h.markup.rules hw hsound hchildren)
  refine ⟨⟨_, hcontent, ?_⟩, .inr rfl⟩
  rw [flatMap_itemText_itemsOf, hlookup, List.flatMap_cons, List.flatMap_nil, List.append_nil,
    textIn_reread hspace hreturn]

end MailMerge.Docx
