import MailMerge.Docx.Reading
import MailMerge.Proofs.Docx.Stripped
import Mathlib.Data.List.Nodup

/-!
# Fragments in a part

An element that was read is written as a fragment with the declarations of its labels, and the declarations
that are in force in the part are cut out of the fragment. What is left is content of the part, although not
always the element that was read.

**`cut_write`**: an element inside a fragment is content of every scope in which the labels of the fragment
are bound, whatever pieces have been cut out of it. The induction is on the element and on its children.

**`fits_verbatim`**: a sound element is content, as it is written back into the part.
-/

namespace MailMerge.Docx

open Xml

variable {d : Doctype} {scope inner : Xml.Scope} {registered used : Labels}

/-- The text is content of elements with the scope, and begins with a tag if it is not empty. -/
structure Fits (d : Doctype) (scope : Xml.Scope) (t : Text) : Prop where
  content : ∃ items, Content d scope t items
  tagged : Tagged t

namespace Fits

theorem nil : Fits d scope [] :=
  ⟨⟨[], .nil⟩, .inl rfl⟩

theorem append {s t : Text} (hs : Fits d scope s) (ht : Fits d scope t) : Fits d scope (s ++ t) := by
  obtain ⟨⟨is, his⟩, hstag⟩ := hs
  obtain ⟨⟨js, hjs⟩, httag⟩ := ht
  exact ⟨⟨is ++ js, his.append hjs httag⟩, hstag.append httag⟩

end Fits

/-! ## Names in a fragment -/

/-- In the scope each label of the fragment is bound to its namespace. -/
def Resolves (scope : Xml.Scope) (used : Labels) : Prop :=
  ∀ space label, LabelledBy used space label → scope.lookup label = some space

/-- What a fragment is written with: a sound register, sound labels, and a scope in which these are bound. -/
structure Writing (registered used : Labels) (scope : Xml.Scope) : Prop where
  register : RegisterIsSound registered
  uses : UsesSound registered used
  resolves : Resolves scope used

/-- The name as it is read where names without a label are in the namespace. -/
def within (space : Text) (n : Name) : Name :=
  if n.space = [] then { n with space } else n

theorem isName_xmlns : isName Xml.Scope.bindingLabel := by decide

theorem xmlns_eq (b : Text) : "xmlns:".toList ++ b = Xml.Scope.bindingLabel ++ ':' :: b := rfl

namespace Writing

variable {n : Name}

theorem isQualifiedName (h : Writing registered used scope) (hn : n.IsSound) (hl : HasLabel used n.space) :
    isQualifiedName (Labels.qualify registered used n) := by
  by_cases hne : n.space = []
  · rw [Labels.qualify, if_pos hne]
    exact isQualifiedName_iff.2 (.inl hn.base)
  · obtain ⟨label, heq, hlabel, -⟩ := exists_label_of_hasLabel h.register h.uses hl hne
    rw [heq]
    exact isQualifiedName_iff.2 (.inr ⟨label, n.base, rfl, hlabel.name, hn.base⟩)

/-- The name of an element is read, in the namespace of the scope if it has no label. -/
theorem elementName? (h : Writing registered used scope) (hn : n.IsSound) (hl : HasLabel used n.space) :
    scope.elementName? (Labels.qualify registered used n) = some (within ((scope.lookup []).getD []) n) := by
  by_cases hne : n.space = []
  · have hcolon := colon_not_mem_of_isName hn.base
    have hsplit : Xml.Scope.splitName n.base = (none, n.base) := by
      rw [Xml.Scope.splitName, Text.cutFirst?_eq_none_iff.2 fun a b he => hcolon (by rw [he]; simp)]
    rw [Labels.qualify, if_pos hne, Xml.Scope.elementName?, hsplit, within, if_pos hne]
  · obtain ⟨label, heq, hlabel⟩ := exists_label_of_hasLabel h.register h.uses hl hne
    rw [heq, Xml.Scope.elementName?, splitName_append (colon_not_mem_of_isName hlabel.1.name), within, if_neg hne]
    dsimp only
    rw [h.resolves _ _ hlabel]
    rfl

/-- **The name of an attribute is read as it was**, and declares nothing. -/
theorem attributeName? (h : Writing registered used scope) (hn : n.IsAttribute) (hl : HasLabel used n.space) :
    scope.attributeName? (Labels.qualify registered used n) = some n ∧
      Xml.Scope.boundLabel? (Labels.qualify registered used n) = none ∧
      ∀ b, Labels.qualify registered used n ≠ "xmlns:".toList ++ b := by
  obtain ⟨space, base⟩ := n
  by_cases hne : space = []
  · subst hne
    have hcolon := colon_not_mem_of_isName hn.base
    have hsplit : Xml.Scope.splitName base = (none, base) := by
      rw [Xml.Scope.splitName, Text.cutFirst?_eq_none_iff.2 fun a b he => hcolon (by rw [he]; simp)]
    rw [Labels.qualify, if_pos rfl, Xml.Scope.attributeName?, Xml.Scope.boundLabel?, hsplit]
    refine ⟨rfl, if_neg (hn.free rfl), ?_⟩
    rintro b rfl
    exact hcolon (by simp)
  · obtain ⟨label, heq, hlabel⟩ := exists_label_of_hasLabel h.register h.uses hl hne
    have hsplit := splitName_append (colon_not_mem_of_isName hlabel.1.name) base
    rw [heq, Xml.Scope.attributeName?, Xml.Scope.boundLabel?, hsplit]
    dsimp only
    rw [h.resolves _ _ hlabel]
    refine ⟨rfl, if_neg hlabel.1.ne_bindingLabel, ?_⟩
    intro b he
    rw [xmlns_eq] at he
    rw [he, splitName_append (by decide)] at hsplit
    exact hlabel.1.ne_bindingLabel (Option.some.inj (Prod.mk.inj hsplit).1).symm

end Writing

/-! ## Entering an element -/

/-- The scope with labels bound. -/
def bindAll (labels : Labels) (scope : Xml.Scope) : Xml.Scope :=
  labels.foldl (fun scope e => (e.2, e.1) :: scope) scope

theorem boundLabel?_xmlns (label : Text) :
    Xml.Scope.boundLabel? ("xmlns:".toList ++ label) = some label := by
  rw [xmlns_eq, Xml.Scope.boundLabel?, splitName_append (by decide)]
  exact if_pos rfl

/-- The declarations of a tag bind their labels, and other attributes bind none. -/
theorem enter?_declared {labels : Labels} (hlabels : ∀ e ∈ labels, IsBinding e.2 e.1)
    {as : List (Text × Text)} (has : ∀ a ∈ as, Xml.Scope.boundLabel? a.1 = none) (scope : Xml.Scope) :
    scope.enter? (declared labels ++ as) = some (bindAll labels scope) := by
  induction labels generalizing scope with
  | nil =>
    rw [declared, List.map_nil, List.nil_append, bindAll, List.foldl_nil]
    induction as with
    | nil => rfl
    | cons a as ih =>
      rw [List.forall_mem_cons] at has
      rw [Xml.Scope.enter?, List.foldlM_cons]
      dsimp only
      rw [has.1]
      exact ih has.2
  | cons e labels ih =>
    rw [List.forall_mem_cons] at hlabels
    rw [declared, List.map_cons, ← declared, List.cons_append, Xml.Scope.enter?, List.foldlM_cons]
    dsimp only
    rw [boundLabel?_xmlns]
    dsimp only
    rw [Xml.Scope.bind?_of_isBinding hlabels.1]
    exact ih hlabels.2 _

/-- Attributes as they are written. -/
def qualified (q : Name → Text) (attributes : List (Name × Text)) : List (Text × Text) :=
  attributes.map fun a => (q a.1, a.2)

/-- Settings under some of the names are attributes as they are written. -/
theorem exists_qualified {q : Name → Text} {names : List Name} {as : List (Text × Text)}
    (h : (as.map (·.1)).Sublist (names.map q)) :
    ∃ attributes, as = qualified q attributes ∧ (attributes.map (·.1)).Sublist names := by
  obtain ⟨kept, hkept, heq⟩ := List.sublist_map_iff.1 h
  suffices ∃ attributes, as = qualified q attributes ∧ attributes.map (·.1) = kept by
    obtain ⟨attributes, has, rfl⟩ := this
    exact ⟨attributes, has, hkept⟩
  clear h hkept
  induction as generalizing kept with
  | nil => exact ⟨[], rfl, by simpa using heq⟩
  | cons a as ih =>
    cases kept with
    | nil => cases heq
    | cons n kept =>
      obtain ⟨ha, hrest⟩ := List.cons.inj heq
      obtain ⟨attributes, rfl, rfl⟩ := ih kept hrest
      refine ⟨(n, a.2) :: attributes, ?_, rfl⟩
      show a :: _ = (q n, a.2) :: _
      rw [← ha]
      rfl

/-- Attributes that are written under their names are read under these. -/
theorem attributes?_declared {labels : Labels} {attributes : List (Name × Text)} {q : Name → Text}
    (hnodup : (attributes.map (·.1)).Nodup)
    (hq : ∀ a ∈ attributes, scope.attributeName? (q a.1) = some a.1 ∧ Xml.Scope.boundLabel? (q a.1) = none) :
    scope.attributes? (declared labels ++ qualified q attributes) = some attributes := by
  have hdeclared : (declared labels).filter (fun a => (Xml.Scope.boundLabel? a.1).isNone) = [] := by
    rw [List.filter_eq_nil_iff]
    intro a ha
    obtain ⟨e, -, rfl⟩ := List.mem_map.1 ha
    rw [boundLabel?_xmlns]
    simp
  have hall : (qualified q attributes).filter (fun a => (Xml.Scope.boundLabel? a.1).isNone) =
      qualified q attributes := by
    rw [List.filter_eq_self]
    intro a ha
    obtain ⟨b, hb, rfl⟩ := List.mem_map.1 ha
    rw [(hq b hb).2]
    rfl
  have hnamed : (qualified q attributes).mapM (fun a => do return (← scope.attributeName? a.1, a.2)) =
      some attributes := by
    clear hnodup hall
    induction attributes with
    | nil => rfl
    | cons a attributes ih =>
      rw [List.forall_mem_cons] at hq
      rw [qualified, List.map_cons, ← qualified, List.mapM_cons, ih hq.2, hq.1.1]
      rfl
  rw [Xml.Scope.attributes?, List.filter_append, hdeclared, hall, List.nil_append, hnamed]
  show (if (attributes.map (·.1)).Nodup then some attributes else none) = _
  rw [if_pos hnodup]

/-- **An element is entered with declarations and with its attributes.** -/
theorem enter?_qualified {labels : Labels} (hw : Writing registered used (bindAll labels scope))
    (hlabels : ∀ e ∈ labels, IsBinding e.2 e.1) (hnodup : (labels.map (·.2)).Nodup) {n : Name} (hn : n.IsSound)
    (hl : HasLabel used n.space) {attributes : List (Name × Text)} (hnames : (attributes.map (·.1)).Nodup)
    (hattributes : ∀ a ∈ attributes, a.1.IsAttribute ∧ HasLabel used a.1.space) :
    Frame.enter? scope (Labels.qualify registered used n)
        (declared labels ++ qualified (Labels.qualify registered used) attributes) =
      some
        { label := Labels.qualify registered used n, scope := bindAll labels scope,
          name := within (((bindAll labels scope).lookup []).getD []) n, attributes } := by
  have hq := fun a ha => hw.attributeName? (hattributes a ha).1 (hattributes a ha).2
  have hmap : (qualified (Labels.qualify registered used) attributes).map (·.1) =
      (attributes.map (·.1)).map (Labels.qualify registered used) := by
    rw [qualified, List.map_map, List.map_map]
    rfl
  have hbound : ∀ a ∈ qualified (Labels.qualify registered used) attributes,
      Xml.Scope.boundLabel? a.1 = none := by
    intro a ha
    obtain ⟨b, hb, rfl⟩ := List.mem_map.1 ha
    exact (hq b hb).2.1
  have hdistinct : ((declared labels ++ qualified (Labels.qualify registered used) attributes).map (·.1)).Nodup := by
    rw [List.map_append, List.nodup_append]
    refine ⟨?_, ?_, ?_⟩
    · rw [declared, List.map_map]
      refine List.Nodup.of_map (fun t => t.drop 6) ?_
      rw [List.map_map]
      exact hnodup
    · rw [hmap]
      refine List.Nodup.of_map (fun t => (bindAll labels scope).attributeName? t) ?_
      have hread : (attributes.map (·.1)).map ((fun t => (bindAll labels scope).attributeName? t) ∘
          Labels.qualify registered used) = (attributes.map (·.1)).map some := by
        refine List.map_congr_left fun m hm => ?_
        obtain ⟨a, ha, rfl⟩ := List.mem_map.1 hm
        exact (hq a ha).1
      rw [List.map_map, hread]
      exact hnames.map fun _ _ h => Option.some.inj h
    · intro x hx y hy
      obtain ⟨e, he, rfl⟩ := List.mem_map.1 hx
      obtain ⟨e', -, rfl⟩ := List.mem_map.1 he
      obtain ⟨a, ha, rfl⟩ := List.mem_map.1 hy
      obtain ⟨b, hb, rfl⟩ := List.mem_map.1 ha
      exact ((hq b hb).2.2 e'.2).symm
  have hread := @attributes?_declared _ labels _ _ hnames fun a ha => ⟨(hq a ha).1, (hq a ha).2.1⟩
  rw [Frame.enter?, if_pos hdistinct, enter?_declared hlabels hbound]
  simp only [Option.bind_eq_bind, Option.bind_some, hw.elementName? hn hl, hread]
  rfl

/-! ## Elements in a fragment -/

/-- The names in the element have labels. -/
def Labelled (used : Labels) (e : Element) : Prop :=
  ∀ n ∈ e.names, HasLabel used n.space

theorem labelled_mk {name : Name} {attributes : List (Name × Text)} {text tail : Text} {children : List Element}
    (h : Labelled used (.mk name attributes text children tail)) :
    HasLabel used name.space ∧ (∀ a ∈ attributes, HasLabel used a.1.space) ∧
      ∀ c ∈ children, Labelled used c := by
  have hnames : ∀ n, n ∈ Element.names (.mk name attributes text children tail) ↔
      n = name ∨ n ∈ attributes.map (·.1) ∨ ∃ c ∈ children, n ∈ c.names := by
    intro n
    rw [Element.names, Element.all, List.flatMap_cons, List.mem_append, List.mem_cons, List.mem_flatMap, or_assoc]
    refine or_congr_right (or_congr_right ?_)
    constructor
    · rintro ⟨x, hx, hn⟩
      obtain ⟨c, hc, hx⟩ := Element.mem_allOf.1 hx
      exact ⟨c, hc, List.mem_flatMap.2 ⟨x, hx, hn⟩⟩
    · rintro ⟨c, hc, hn⟩
      obtain ⟨x, hx, hn⟩ := List.mem_flatMap.1 hn
      exact ⟨x, Element.mem_allOf.2 ⟨c, hc, hx⟩, hn⟩
  refine ⟨h _ ((hnames _).2 (.inl rfl)), ?_, ?_⟩
  · intro a ha
    exact h _ ((hnames _).2 (.inr (.inl (List.mem_map_of_mem ha))))
  · intro c hc n hn
    exact h _ ((hnames _).2 (.inr (.inr ⟨c, hc, hn⟩)))

/-- An element from the end of its first tag on, without the text after it. -/
def ending (q : Name → Text) (name : Name) (text : Text) (children : List Element) : Text :=
  if text = [] ∧ children.isEmpty then [' ', '/', '>']
  else '>' :: (escape text ++ (Element.writeAll q children ++ ('<' :: '/' :: q name ++ ['>'])))

theorem write_mk (q : Name → Text) (extra : Text) (name : Name) (attributes : List (Name × Text))
    (text : Text) (children : List Element) (tail : Text) :
    Element.write q extra (.mk name attributes text children tail) =
      '<' :: q name ++ extra ++
        (settings (qualified q attributes) ++ (ending q name text children ++ escape tail)) := by
  have hsettings : settings (qualified q attributes) =
      attributes.flatMap fun a => writeSetting (q a.1) a.2 := by
    rw [settings, qualified, List.flatMap_map]
  rw [Element.write, hsettings, ending]
  split <;> simp only [List.append_assoc, List.cons_append, List.nil_append]

theorem tagged_writeAll (q : Name → Text) (es : List Element) : Tagged (Element.writeAll q es) := by
  cases es with
  | nil => exact .inl (by rw [Element.writeAll])
  | cons e es =>
    obtain ⟨name, attributes, text, children, tail⟩ := e
    rw [Element.writeAll, write_mk]
    exact .inr rfl

theorem closesTag_ending (q : Name → Text) (name : Name) (text : Text) (children : List Element) (t : Text) :
    ClosesTag (ending q name text children ++ t) := by
  unfold ending
  split
  · exact .cons (by decide) (.cons (by decide) (closesTag_cons t))
  · exact closesTag_cons _

/-- Nothing is cut out of the end of a tag without content. -/
theorem Cut.of_emptyEnd {t r : Text} (h : Cut ([' ', '/', '>'] ++ t) r) :
    ∃ r', r = [' ', '/', '>'] ++ r' ∧ Cut t r' := by
  rcases cases_cons h with ⟨r', rfl, hrest⟩ | ⟨-, s, w, hs, heq, -⟩
  · obtain ⟨r'', rfl, hcut⟩ := @of_not_isBlank ['/', '>'] t _ (by decide) hrest
    exact ⟨r'', rfl, hcut⟩
  · obtain ⟨x, hx⟩ := hs.dropWhile_eq w
    have hslash : ([' ', '/', '>'] ++ t).dropWhile Text.isBlank = '/' :: '>' :: t := rfl
    have heq : [' ', '/', '>'] ++ t = s ++ w := heq
    rw [← heq, hslash] at hx
    exact absurd (List.cons.inj hx).1 (by decide)

theorem settings_append (as bs : List (Text × Text)) : settings (as ++ bs) = settings as ++ settings bs :=
  List.flatMap_append

theorem isWritable_declared {labels : Labels} (hlabels : ∀ e ∈ labels, IsLabel e.2 ∧ IsSpace e.1) :
    ∀ a ∈ declared labels, IsWritable a := by
  intro a ha
  obtain ⟨e, he, rfl⟩ := List.mem_map.1 ha
  obtain ⟨hlabel, hspace⟩ := hlabels e he
  exact ⟨isQualifiedName_iff.2 (.inr ⟨_, _, rfl, isName_xmlns, hlabel.name⟩), hspace.legal⟩

/-- The tag that ends an element holds no blank. -/
theorem not_isBlank_endTag {q : Text} (h : isQualifiedName q) :
    ∀ c ∈ '<' :: '/' :: q ++ ['>'], ¬ Text.isBlank c := by
  have hends : ∀ c ∈ ['<', '/', '>'], ¬ Text.isBlank c := by decide
  intro c hc
  simp only [List.cons_append, List.mem_cons, List.mem_append, List.not_mem_nil, or_false] at hc
  rcases hc with hc | hc | hc | hc
  · exact hends c (by simp [hc])
  · exact hends c (by simp [hc])
  · exact not_isBlank_of_isQualifiedName h c hc
  · exact hends c (by simp [hc])

section

variable {labels : Labels} {name : Name} {attributes : List (Name × Text)} {text tail u r : Text}
  {children : List Element}

/-- **An element is content after pieces have been cut out of it**, if its children are. Declarations may
stand before its attributes. -/
theorem cut_element (hd : d.rules = []) (hw : Writing registered used (bindAll labels scope))
    (hlabels : ∀ e ∈ labels, IsLabel e.2 ∧ IsBinding e.2 e.1) (hnodup : (labels.map (·.2)).Nodup)
    (he : Element.IsSound (.mk name attributes text children tail))
    (hl : Labelled used (.mk name attributes text children tail))
    (hchildren : ∀ {u r}, Tagged u → Cut (Element.writeAll (Labels.qualify registered used) children ++ u) r →
      ∃ t r', r = t ++ r' ∧ Cut u r' ∧ Fits d (bindAll labels scope) t)
    (hu : Tagged u)
    (h : Cut (settings (qualified (Labels.qualify registered used) attributes) ++
      (ending (Labels.qualify registered used) name text children ++ (escape tail ++ u))) r) :
    ∃ t r', r = t ++ r' ∧ Cut u r' ∧ ∃ items,
      Content d scope ('<' :: Labels.qualify registered used name ++ settings (declared labels) ++ t) items := by
  obtain ⟨htop, -⟩ := Element.isSound_mk.1 he
  obtain ⟨hname, hattributes, -⟩ := labelled_mk hl
  have hattribute := fun a ha => hw.attributeName? (htop.attributes a ha).1 (hattributes a ha)
  have hsettings : ∀ a ∈ qualified (Labels.qualify registered used) attributes, IsSetting a := by
    intro a ha
    obtain ⟨b, hb, rfl⟩ := List.mem_map.1 ha
    exact ⟨⟨hw.isQualifiedName (htop.attributes b hb).1.toIsSound (hattributes b hb), (htop.attributes b hb).2⟩,
      (hattribute b hb).2.2⟩
  obtain ⟨as, r₁, rfl, hfewer, hcut⟩ := h.settings (closesTag_ending _ _ _ _ _) hsettings
  have hmap : (qualified (Labels.qualify registered used) attributes).map (·.1) =
      (attributes.map (·.1)).map (Labels.qualify registered used) := by
    rw [qualified, List.map_map, List.map_map]
    rfl
  obtain ⟨kept, rfl, hkept⟩ := exists_qualified (hmap ▸ hfewer.names)
  have hsound : ∀ a ∈ kept, a.1.IsAttribute ∧ HasLabel used a.1.space := by
    intro a ha
    obtain ⟨b, hb, hname⟩ := List.mem_map.1 (hkept.subset (List.mem_map_of_mem ha))
    rw [← hname]
    exact ⟨(htop.attributes b hb).1, hattributes b hb⟩
  have hn : name.IsSound := htop.name
  have hg := enter?_qualified hw (fun e he => (hlabels e he).2) hnodup hn hname (hkept.nodup htop.nodup) hsound
  have hqualified := hw.isQualifiedName hn hname
  have hwritable : ∀ a ∈ declared labels ++ qualified (Labels.qualify registered used) kept, IsWritable a := by
    intro a ha
    rcases List.mem_append.1 ha with ha | ha
    · exact isWritable_declared (fun e he => ⟨(hlabels e he).1, (hlabels e he).2.toIsSpace⟩) a ha
    · refine ⟨?_, hfewer.legal a ha⟩
      obtain ⟨b, hb, rfl⟩ := List.mem_map.1 ha
      exact hw.isQualifiedName (hsound b hb).1.toIsSound (hsound b hb).2
  have hlegal : ∀ {t t' : Text}, (∀ c ∈ t, isLegal c) → t' ⊆ t → ∀ c ∈ t', isLegal c :=
    fun ht hsub c hc => ht c (hsub hc)
  unfold ending at hcut
  split at hcut
  · obtain ⟨r₂, rfl, hafter⟩ := hcut.of_emptyEnd
    obtain ⟨tail', r₃, rfl, htail, hrest⟩ := hafter.escape hu
    have hcontent := (Enclosed.single hd hqualified hwritable hg).append
      (.escape (hlegal htop.tail htail))
    rw [settings_append] at hcontent
    exact ⟨settings (qualified (Labels.qualify registered used) kept) ++ ([' ', '/', '>'] ++ escape tail'), r₃,
      by simp, hrest, _, by simpa using hcontent⟩
  · rw [List.cons_append, List.append_assoc, List.append_assoc] at hcut
    obtain ⟨r₂, rfl, htextCut⟩ := @Cut.of_not_isBlank ['>'] _ _ (by decide) hcut
    obtain ⟨text', r₃, rfl, htext, hchildrenCut⟩ := htextCut.escape
      ((tagged_writeAll _ _).append (.inr rfl))
    obtain ⟨t, r₄, rfl, hstopCut, hfits⟩ := hchildren (.inr rfl) hchildrenCut
    have hblank := not_isBlank_endTag hqualified
    obtain ⟨r₅, rfl, hafter⟩ := Cut.of_not_isBlank hblank hstopCut
    obtain ⟨tail', r₆, rfl, htail, hrest⟩ := hafter.escape hu
    obtain ⟨items, hitems⟩ := hfits.content
    have hinside := (@Content.escape d (bindAll labels scope) _ (hlegal htop.text htext)).append hitems hfits.tagged
    have hcontent := (Enclosed.between hd hqualified hwritable hg hinside).append
      (.escape (hlegal htop.tail htail))
    rw [settings_append] at hcontent
    exact ⟨settings (qualified (Labels.qualify registered used) kept) ++ ('>' :: (escape text' ++ (t ++
        ('<' :: '/' :: Labels.qualify registered used name ++ ['>'] ++ escape tail')))), r₆,
      by simp, hrest, _, by simpa using hcontent⟩

end

mutual

/-- **An element inside a fragment is content, whatever is cut out of it.** -/
theorem cut_write (hd : d.rules = []) (hw : Writing registered used scope) {e : Element} (he : e.IsSound)
    (hl : Labelled used e) {u r : Text} (hu : Tagged u)
    (h : Cut (Element.write (Labels.qualify registered used) [] e ++ u) r) :
    ∃ t r', r = t ++ r' ∧ Cut u r' ∧ Fits d scope t := by
  cases e with
  | mk name attributes text children tail =>
    obtain ⟨htop, hsound⟩ := Element.isSound_mk.1 he
    obtain ⟨hname, -, hlabelled⟩ := labelled_mk hl
    have hblank : ∀ c ∈ '<' :: Labels.qualify registered used name, ¬ Text.isBlank c :=
      List.forall_mem_cons.2 ⟨by decide, not_isBlank_of_isQualifiedName (hw.isQualifiedName htop.name hname)⟩
    rw [write_mk, List.append_nil, List.append_assoc, List.append_assoc, List.append_assoc] at h
    obtain ⟨r₁, rfl, hcut⟩ := Cut.of_not_isBlank hblank h
    obtain ⟨t, r', rfl, hrest, items, hitems⟩ := @cut_element d scope registered used [] _ _ _ _ _ _ _ hd hw (by simp)
      (by simp) he hl (fun hu h => cut_writeAll hd hw hsound hlabelled hu h) hu hcut
    refine ⟨'<' :: Labels.qualify registered used name ++ t, r', by simp, hrest, ⟨items, ?_⟩, .inr rfl⟩
    simpa [declared, settings] using hitems

/-- Elements inside a fragment are content, whatever is cut out of them. -/
theorem cut_writeAll (hd : d.rules = []) (hw : Writing registered used scope) {es : List Element}
    (hes : ∀ e ∈ es, e.IsSound) (hl : ∀ e ∈ es, Labelled used e) {u r : Text} (hu : Tagged u)
    (h : Cut (Element.writeAll (Labels.qualify registered used) es ++ u) r) :
    ∃ t r', r = t ++ r' ∧ Cut u r' ∧ Fits d scope t := by
  cases es with
  | nil =>
    rw [Element.writeAll] at h
    exact ⟨[], r, rfl, h, .nil⟩
  | cons e es =>
    rw [Element.writeAll, List.append_assoc] at h
    rw [List.forall_mem_cons] at hes hl
    obtain ⟨t, r₁, rfl, hcut, hfits⟩ := cut_write hd hw hes.1 hl.1 ((tagged_writeAll _ es).append hu) h
    obtain ⟨t', r₂, rfl, hrest, hfits'⟩ := cut_writeAll hd hw hes.2 hl.2 hu hcut
    exact ⟨t ++ t', r₂, by simp, hrest, hfits.append hfits'⟩

end

/-! ## Fragments -/

theorem lookup_bindAll_of_notMem {labels : Labels} {label : Text} (h : label ∉ labels.map (·.2)) (scope : Xml.Scope) :
    (bindAll labels scope).lookup label = scope.lookup label := by
  induction labels generalizing scope with
  | nil => rfl
  | cons e labels ih =>
    rw [List.map_cons, List.mem_cons, not_or] at h
    rw [bindAll, List.foldl_cons, ← bindAll, ih h.2, List.lookup_cons, beq_eq_false_iff_ne.2 h.1]

theorem lookup_bindAll_of_mem {labels : Labels} (hnodup : (labels.map (·.2)).Nodup) {e : Text × Text}
    (he : e ∈ labels) (scope : Xml.Scope) : (bindAll labels scope).lookup e.2 = some e.1 := by
  induction labels generalizing scope with
  | nil => cases he
  | cons x labels ih =>
    rw [List.map_cons, List.nodup_cons] at hnodup
    rw [bindAll, List.foldl_cons, ← bindAll]
    rcases List.mem_cons.1 he with rfl | he
    · rw [lookup_bindAll_of_notMem hnodup.1, List.lookup_cons, beq_self_eq_true]
    · exact ih hnodup.2 he _

theorem UsesSound.isBinding (h : UsesSound registered used) {e : Text × Text} (he : e ∈ used) :
    IsBinding e.2 e.1 := by
  obtain ⟨hlabel, hreserved⟩ := h.label e he
  obtain ⟨hspace, hne, hxml⟩ := h.space e he
  exact { hspace with
    name := .inr hlabel.name
    ne_bindingLabel := hlabel.ne_bindingLabel
    xml := ⟨fun he => absurd he hreserved, fun he => absurd he hxml⟩
    ne_nil := fun _ => hne }

/-- **With the declarations that are not in force yet, all labels of a fragment are bound.** -/
theorem resolves_bindAll_unknown {ds : Declarations} (hscope : scope.IsSound)
    (hforce : ∀ e ∈ ds, e.InForce scope) (h : UsesSound registered used) {labels : Labels}
    (hperm : labels.Perm used) : Resolves (bindAll (unknown ds labels) scope) used := by
  have hlabels : (labels.map (·.2)).Nodup := (hperm.map _).nodup_iff.2 h.labels
  have hnodup : ((unknown ds labels).map (·.2)).Nodup := (List.filter_sublist.map _).nodup hlabels
  have hmem : ∀ e ∈ unknown ds labels, e ∈ used := fun e he => hperm.subset (List.mem_filter.1 he).1
  rintro space label ⟨-, ⟨rfl, rfl⟩ | hused⟩
  · have hfree : Labels.reserved ∉ (unknown ds labels).map (·.2) := by
      intro he
      obtain ⟨e, he, heq⟩ := List.mem_map.1 he
      exact (h.label e (hmem e he)).2 heq
    rw [lookup_bindAll_of_notMem hfree]
    exact hscope.xml
  · by_cases hknown : ds.space? label = some (escapeValue space)
    · have hfree : label ∉ (unknown ds labels).map (·.2) := by
        intro he
        obtain ⟨e, he, heq⟩ := List.mem_map.1 he
        have hsame : e = (space, label) := List.inj_on_of_nodup_map h.labels (hmem e he) hused heq
        have hunknown := (List.mem_filter.1 he).2
        rw [hsame] at hunknown
        simp [hknown] at hunknown
      obtain ⟨e, he, rfl, hspace⟩ := exists_of_space? hknown
      rw [lookup_bindAll_of_notMem hfree]
      exact (hforce e he).space space (h.space _ hused).1.legal hspace.symm
    · have hkept : (space, label) ∈ unknown ds labels :=
        List.mem_filter.2 ⟨hperm.symm.subset hused, by simpa using hknown⟩
      exact lookup_bindAll_of_mem hnodup hkept scope

/-- What a part has to be like for its fragments to be put back: its declarations are in force in the scope
where they are put, and its register is sound. -/
structure Labelling.InForce (l : Labelling) (scope : Xml.Scope) : Prop where
  sound : scope.IsSound
  register : RegisterIsSound l.labels
  found : ∀ e ∈ l.declared, e.IsFound
  force : ∀ e ∈ l.declared, e.InForce scope

/-- **What a part declares is in force in it**, if it is in force where the part is open. -/
theorem inForce_ofPart {xml head : Text} {f : Frame} {frames : List Frame} {labels : Labels}
    (hopened : opened? head = some (d, f :: frames)) (hd : d.rules = []) (hlabels : RegisterIsSound labels)
    (hdeclared : ∀ e ∈ Declarations.ofDocument xml, e.InForce f.scope) :
    (Labelling.ofPart labels xml).InForce f.scope := by
  have hscope : f.scope.IsSound := (opened?_sound hopened hd f List.mem_cons_self).scope
  have hfound : ∀ e ∈ Declarations.ofDocument xml, e.IsFound :=
    fun e he => Declarations.isFound_of_mem_ofDocument he
  exact ⟨hscope, hlabels.registerAll hscope hfound hdeclared, hfound, hdeclared⟩

/-- **An element as it is written back**: of the declarations of its first tag only those are left that are not
in force yet, and with them all its labels are bound. -/
theorem exists_verbatim {l : Labelling} (h : l.InForce scope) {name : Name} {attributes : List (Name × Text)}
    {text tail : Text} {children : List Element} (he : Element.IsSound (.mk name attributes text children tail)) :
    ∃ used labels, used = Element.labels l.labels (.mk name attributes text children tail) ∧
      Writing l.labels used (bindAll labels scope) ∧ (∀ e ∈ labels, IsLabel e.2 ∧ IsBinding e.2 e.1) ∧
      (labels.map (·.2)).Nodup ∧ Labelled used (.mk name attributes text children tail) ∧
      l.verbatim (.mk name attributes text children tail) =
        '<' :: Labels.qualify l.labels used name ++ (settings (declared labels) ++
          l.declared.strip (settings (qualified (Labels.qualify l.labels used) attributes) ++
            (ending (Labels.qualify l.labels used) name text children ++ escape tail))) := by
  have hspaces : ∀ n ∈ Element.names (.mk name attributes text children tail), IsSpace n.space := by
    intro n hn
    obtain ⟨x, hx, hn⟩ := List.mem_flatMap.1 hn
    rcases List.mem_cons.1 hn with rfl | hn
    · exact (he x hx).name.space
    · obtain ⟨a, ha, rfl⟩ := List.mem_map.1 hn
      exact ((he x hx).attributes a ha).1.space
  obtain ⟨huses, -, hlabelled⟩ := (usesSound_nil l.labels).foldl h.register hspaces
  rw [Labelling.verbatim, Element.toXml]
  unfold Element.labels
  generalize List.foldl (Labels.use l.labels) [] _ = used at huses hlabelled
  have hdeclarations : declarations used = settings (declared (used.mergeSort fun a b => !(b.2 < a.2))) := by
    rw [settings, declared, List.flatMap_map]
    rfl
  have hperm := List.mergeSort_perm used fun a b => !(b.2 < a.2)
  generalize used.mergeSort (fun a b => !(b.2 < a.2)) = sorted at hdeclarations hperm
  have hw : Writing l.labels used (bindAll (unknown l.declared sorted) scope) :=
    ⟨h.register, huses, resolves_bindAll_unknown h.sound h.force huses hperm⟩
  obtain ⟨htop, -⟩ := Element.isSound_mk.1 he
  obtain ⟨hname, -, -⟩ := labelled_mk hlabelled
  have hblank : ∀ c ∈ '<' :: Labels.qualify l.labels used name, ¬ Text.isBlank c :=
    List.forall_mem_cons.2 ⟨by decide, not_isBlank_of_isQualifiedName (hw.isQualifiedName htop.name hname)⟩
  have hsorted : ∀ e ∈ sorted, IsLabel e.2 := fun e he => (huses.label e (hperm.subset he)).1
  refine ⟨used, unknown l.declared sorted, rfl, hw, ?_, ?_, hlabelled, ?_⟩
  · intro e he
    have hmem := hperm.subset (List.mem_filter.1 he).1
    exact ⟨(huses.label e hmem).1, huses.isBinding hmem⟩
  · exact (List.filter_sublist.map _).nodup ((hperm.map _).nodup_iff.2 huses.labels)
  · rw [write_mk, hdeclarations, List.append_assoc, strip_append_of_not_isBlank _ hblank,
      strip_declared _ hsorted]

/-- **A sound element is content of the part as it is written back.** -/
theorem fits_verbatim {l : Labelling} (h : l.InForce scope) (hd : d.rules = []) {e : Element} (he : e.IsSound) :
    Fits d scope (l.verbatim e) := by
  obtain ⟨name, attributes, text, children, tail⟩ := e
  obtain ⟨used, labels, -, hw, hlabels, hnodup, hlabelled, hverbatim⟩ := exists_verbatim h he
  obtain ⟨-, hsound⟩ := Element.isSound_mk.1 he
  obtain ⟨-, -, hchildren⟩ := labelled_mk hlabelled
  have hangle : ∀ e ∈ l.declared, '<' ∉ e.space ∧ '>' ∉ e.space :=
    fun e he => ⟨(h.force e he).closed, (h.found e he).angle⟩
  have hcut := cut_strip hangle (settings (qualified (Labels.qualify l.labels used) attributes) ++
    (ending (Labels.qualify l.labels used) name text children ++ (escape tail ++ [])))
  obtain ⟨t, r', heq, hrest, items, hitems⟩ := cut_element hd hw hlabels hnodup he hlabelled
    (fun hu hc => cut_writeAll hd hw hsound hchildren hu hc) (.inl rfl) hcut
  rw [List.append_nil, hrest.eq_nil, List.append_nil] at heq
  rw [hverbatim, heq]
  exact ⟨⟨items, by simpa using hitems⟩, .inr rfl⟩

end MailMerge.Docx
