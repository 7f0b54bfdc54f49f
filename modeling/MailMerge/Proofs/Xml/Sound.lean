import MailMerge.Proofs.Xml.Filled

/-!
# What is read is sound

Whatever a document looks like, its names are names, its labels are bound to namespaces that labels may be
bound to, and its texts hold legal characters only. Entities make no difference, since their texts are read
in the same way.

**`Event.ofTokens?_sound`**: the events of a text are sound if the tokens are, without declared attributes.

**`build?_sound`, `parse?_sound`**: so are the elements that they make, and the scopes inside them.
-/

namespace MailMerge.Xml

/-! ## Names in scope -/

/-- Names may be in the namespace. -/
structure IsSpace (space : Text) : Prop where
  ne_bindingSpace : space ≠ Scope.bindingSpace
  brace : '}' ∉ space
  legal : ∀ c ∈ space, isLegal c

/-- The label may be bound to the namespace. -/
structure IsBinding (label space : Text) : Prop extends IsSpace space where
  name : label = [] ∨ isName label
  ne_bindingLabel : label ≠ Scope.bindingLabel
  xml : label = "xml".toList ↔ space = Scope.xmlSpace
  ne_nil : label ≠ [] → space ≠ []

namespace Scope

variable {scope inner : Scope} {label space t : Text}

/-- The labels in scope are bound to namespaces that they may be bound to. -/
structure IsSound (scope : Scope) : Prop where
  binding : ∀ e ∈ scope, IsBinding e.1 e.2
  xml : scope.lookup "xml".toList = some xmlSpace

theorem isSpace_nil : IsSpace [] :=
  ⟨by decide, by simp, by simp⟩

theorem isSound_initial : Scope.initial.IsSound where
  binding e he := by
    rw [List.mem_singleton.1 he]
    exact ⟨⟨by decide, by decide, by decide⟩, by decide, by decide, by decide, by decide⟩
  xml := rfl

/-- What may be bound can be bound. -/
theorem bind?_of_isBinding (h : IsBinding label space) (scope : Scope) :
    scope.bind? label space = some ((label, space) :: scope) := by
  have hxml : (label = "xml".toList) = (space = xmlSpace) := propext h.xml
  have hnil : ¬ (label ≠ [] ∧ space = []) := by
    intro he
    exact h.ne_nil he.1 he.2
  rw [bind?, if_neg (by simp [h.ne_bindingLabel, h.ne_bindingSpace]), if_neg (by rw [hxml]; simp),
    if_neg hnil, if_neg h.brace]

theorem isBinding_of_bind? (h : scope.bind? label space = some inner) (hlabel : label = [] ∨ isName label)
    (hlegal : ∀ c ∈ space, isLegal c) : IsBinding label space ∧ inner = (label, space) :: scope := by
  unfold bind? at h
  split at h
  · cases h
  · next hfree =>
    split at h
    · cases h
    · next hxml =>
      split at h
      · cases h
      · next hnil =>
        split at h
        · cases h
        · next hbrace =>
          rw [not_or] at hfree
          refine ⟨⟨⟨hfree.2, hbrace, hlegal⟩, hlabel, hfree.1, ?_, ?_⟩, (Option.some.inj h).symm⟩
          · rw [Classical.not_not.1 hxml]
          · intro hne he
            exact hnil ⟨hne, he⟩

theorem IsSound.of_lookup (h : scope.IsSound) (hl : scope.lookup label = some space) :
    IsBinding label space := by
  obtain ⟨before, rest, rfl, -⟩ := List.lookup_eq_some_iff.1 hl
  exact h.binding (label, space) (List.mem_append_right before List.mem_cons_self)

theorem IsSound.cons (h : scope.IsSound) (hb : IsBinding label space) :
    Scope.IsSound ((label, space) :: scope) where
  binding := List.forall_mem_cons.2 ⟨hb, h.binding⟩
  xml := by
    rw [List.lookup_cons]
    split
    · next he => rw [hb.xml.1 (eq_of_beq he).symm]
    · exact h.xml

/-- A qualified name has no label, or a label and a name that are names. -/
theorem splitName_of_isQualifiedName (h : isQualifiedName t) :
    splitName t = (none, t) ∧ isName t ∨
      ∃ label base, splitName t = (some label, base) ∧ isName label ∧ isName base := by
  rcases isQualifiedName_iff.1 h with h | ⟨label, base, rfl, hlabel, hbase⟩
  · have hcut : Text.cutFirst? [':'] t = none := by
      rw [Text.cutFirst?_eq_none_iff]
      rintro a b rfl
      exact colon_not_mem_of_isName h (by simp)
    rw [splitName, hcut]
    exact .inl ⟨rfl, h⟩
  · rw [splitName_append (colon_not_mem_of_isName hlabel)]
    exact .inr ⟨label, base, rfl, hlabel, hbase⟩

theorem label_of_boundLabel? (h : isQualifiedName t) (hb : boundLabel? t = some label) :
    label = [] ∨ isName label := by
  rcases splitName_of_isQualifiedName h with ⟨hs, -⟩ | ⟨l, base, hs, -, hbase⟩
  · rw [boundLabel?, hs] at hb
    dsimp only at hb
    split at hb
    · exact .inl (Option.some.inj hb).symm
    · cases hb
  · rw [boundLabel?, hs] at hb
    dsimp only at hb
    split at hb
    · exact .inr (Option.some.inj hb ▸ hbase)
    · cases hb

/-- **An element leaves the scope sound.** -/
theorem IsSound.enter? (h : scope.IsSound) {attributes : List (Text × Text)}
    (has : ∀ a ∈ attributes, IsWritable a) (he : scope.enter? attributes = some inner) :
    inner.IsSound := by
  induction attributes generalizing scope with
  | nil => exact Option.some.inj he ▸ h
  | cons a attributes ih =>
    rw [Scope.enter?, List.foldlM_cons, Option.bind_eq_bind, Option.bind_eq_some_iff] at he
    obtain ⟨next, hnext, he⟩ := he
    have ha := has a List.mem_cons_self
    refine ih ?_ (fun b hb => has b (List.mem_cons_of_mem a hb)) he
    obtain ⟨name, value⟩ := a
    dsimp only at hnext
    split at hnext
    · next label hlabel =>
      obtain ⟨hbinding, rfl⟩ := isBinding_of_bind? hnext (label_of_boundLabel? ha.1 hlabel) ha.2
      exact h.cons hbinding
    · exact Option.some.inj hnext ▸ h

end Scope

/-! ## Elements -/

/-- The name is a name in a namespace that names may be in. -/
structure Name.IsSound (n : Name) : Prop where
  base : isName n.base
  space : IsSpace n.space

/-- The name is sound and binds no label. -/
structure Name.IsAttribute (n : Name) : Prop extends Name.IsSound n where
  free : n.space = [] → n.base ≠ Scope.bindingLabel

namespace Element

/-- The element itself is sound, whatever is inside it. -/
structure IsSoundAtTop (e : Element) : Prop where
  name : e.name.IsSound
  attributes : ∀ a ∈ e.attributes, a.1.IsAttribute ∧ ∀ c ∈ a.2, isLegal c
  nodup : (e.attributes.map (·.1)).Nodup
  text : ∀ c ∈ e.text, isLegal c
  tail : ∀ c ∈ e.tail, isLegal c

/-- The element and all inside it are sound. -/
def IsSound (e : Element) : Prop :=
  ∀ x ∈ e.all, x.IsSoundAtTop

theorem mem_allOf {x : Element} {es : List Element} : x ∈ allOf es ↔ ∃ e ∈ es, x ∈ e.all := by
  induction es with
  | nil => simp [allOf]
  | cons e es ih => simp [allOf, ih]

theorem isSound_mk {name : Name} {attributes : List (Name × Text)} {text tail : Text}
    {children : List Element} :
    IsSound (mk name attributes text children tail) ↔
      IsSoundAtTop (mk name attributes text children tail) ∧ ∀ c ∈ children, c.IsSound := by
  constructor
  · intro h
    refine ⟨h _ (by rw [all]; exact List.mem_cons_self), fun c hc x hx => h x ?_⟩
    rw [all]
    exact List.mem_cons_of_mem _ (mem_allOf.2 ⟨c, hc, hx⟩)
  · intro h x hx
    rw [all] at hx
    rcases List.mem_cons.1 hx with rfl | hx
    · exact h.1
    · obtain ⟨c, hc, hx⟩ := mem_allOf.1 hx
      exact h.2 c hc x hx

theorem IsSound.withTail {e : Element} (h : e.IsSound) {t : Text} (ht : ∀ c ∈ t, isLegal c) :
    (e.withTail t).IsSound := by
  obtain ⟨name, attributes, text, children, tail⟩ := e
  rw [isSound_mk] at h
  exact isSound_mk.2 ⟨{ h.1 with tail := ht }, h.2⟩

end Element

/-! ## Open elements -/

/-- What is known of the open element is sound. -/
structure Frame.IsSound (f : Frame) : Prop where
  scope : f.scope.IsSound
  name : f.name.IsSound
  attributes : ∀ a ∈ f.attributes, a.1.IsAttribute ∧ ∀ c ∈ a.2, isLegal c
  nodup : (f.attributes.map (·.1)).Nodup
  text : ∀ c ∈ f.text, isLegal c
  children : ∀ c ∈ f.children, c.IsSound
  pending : ∀ c ∈ f.pending, isLegal c

theorem exists_of_mem_mapM {α β : Type} {f : α → Option β} {xs : List α} {ys : List β}
    (h : xs.mapM f = some ys) {y : β} (hy : y ∈ ys) : ∃ x ∈ xs, f x = some y := by
  induction xs generalizing ys with
  | nil =>
    obtain rfl := Option.some.inj h
    cases hy
  | cons x xs ih =>
    simp only [List.mapM_cons, Option.bind_eq_bind, Option.bind_eq_some_iff, Option.pure_def,
      Option.some.injEq] at h
    obtain ⟨z, hz, zs, hzs, rfl⟩ := h
    rcases List.mem_cons.1 hy with rfl | hy
    · exact ⟨x, List.mem_cons_self, hz⟩
    · obtain ⟨x', hx', he⟩ := ih hzs hy
      exact ⟨x', List.mem_cons_of_mem x hx', he⟩

namespace Scope

variable {scope : Scope} {t : Text}

theorem IsSound.elementName? (h : scope.IsSound) (ht : isQualifiedName t) {n : Name}
    (hn : scope.elementName? t = some n) : n.IsSound := by
  rcases splitName_of_isQualifiedName ht with ⟨hs, hname⟩ | ⟨label, base, hs, -, hbase⟩
  · rw [Scope.elementName?, hs] at hn
    obtain rfl := Option.some.inj hn
    refine ⟨hname, ?_⟩
    cases hl : scope.lookup [] with
    | none => exact isSpace_nil
    | some space => exact (h.of_lookup hl).toIsSpace
  · rw [Scope.elementName?, hs] at hn
    obtain ⟨space, hl, rfl⟩ := Option.map_eq_some_iff.1 hn
    exact ⟨hbase, (h.of_lookup hl).toIsSpace⟩

theorem IsSound.attributeName? (h : scope.IsSound) (ht : isQualifiedName t) (hb : boundLabel? t = none)
    {n : Name} (hn : scope.attributeName? t = some n) : n.IsAttribute := by
  rcases splitName_of_isQualifiedName ht with ⟨hs, hname⟩ | ⟨label, base, hs, hlabel, hbase⟩
  · rw [Scope.attributeName?, hs] at hn
    obtain rfl := Option.some.inj hn
    refine ⟨⟨hname, isSpace_nil⟩, fun _ he => ?_⟩
    rw [boundLabel?, hs] at hb
    dsimp only at he hb
    rw [if_pos he] at hb
    cases hb
  · rw [Scope.attributeName?, hs] at hn
    obtain ⟨space, hl, rfl⟩ := Option.map_eq_some_iff.1 hn
    have hbinding := h.of_lookup hl
    refine ⟨⟨hbase, hbinding.toIsSpace⟩, fun he => ?_⟩
    have hne : label ≠ [] := by
      rintro rfl
      cases hlabel
    exact absurd he (hbinding.ne_nil hne)

theorem IsSound.attributes? (h : scope.IsSound) {given : List (Text × Text)}
    (hgiven : ∀ a ∈ given, IsWritable a) {named : List (Name × Text)}
    (hn : scope.attributes? given = some named) :
    (∀ a ∈ named, a.1.IsAttribute ∧ ∀ c ∈ a.2, isLegal c) ∧ (named.map (·.1)).Nodup := by
  obtain ⟨all, hall, hn⟩ := Option.bind_eq_some_iff.1 hn
  split at hn
  · next hnodup =>
    obtain rfl := Option.some.inj hn
    refine ⟨fun a ha => ?_, hnodup⟩
    obtain ⟨⟨name, value⟩, hmem, ha⟩ := exists_of_mem_mapM hall ha
    rw [List.mem_filter, Option.isNone_iff_eq_none] at hmem
    simp only [Option.bind_eq_bind, Option.bind_eq_some_iff, Option.pure_def, Option.some.injEq] at ha
    obtain ⟨n, hn, rfl⟩ := ha
    have hwritable := hgiven _ hmem.1
    exact ⟨h.attributeName? hwritable.1 hmem.2 hn, hwritable.2⟩
  · cases hn

end Scope

namespace Frame

variable {f : Frame}

/-- **An element that is opened in a sound scope is sound.** -/
theorem isSound_of_enter? {scope : Scope} (h : scope.IsSound) {label : Text} {given : List (Text × Text)}
    (hlabel : isQualifiedName label) (hgiven : ∀ a ∈ given, IsWritable a)
    (hf : enter? scope label given = some f) : f.IsSound := by
  unfold enter? at hf
  split at hf
  · simp only [Option.bind_eq_bind, Option.bind_eq_some_iff, Option.pure_def, Option.some.injEq] at hf
    obtain ⟨inner, hinner, name, hname, named, hnamed, rfl⟩ := hf
    have hscope := h.enter? hgiven hinner
    obtain ⟨hattributes, hnodup⟩ := hscope.attributes? hgiven hnamed
    exact ⟨hscope, hscope.elementName? hlabel hname, hattributes, hnodup, by simp, by simp, by simp⟩
  · cases hf

theorem IsSound.settle (h : f.IsSound) : f.settle.IsSound := by
  have hpending : ∀ c ∈ f.pending.reverse, isLegal c := fun c hc => h.pending c (List.mem_reverse.1 hc)
  unfold Frame.settle
  split
  · exact { h with text := hpending, pending := by simp }
  · next e es he =>
    refine { h with children := fun c hc => ?_, pending := by simp }
    rcases List.mem_cons.1 hc with rfl | hc
    · exact (h.children e (by rw [he]; exact List.mem_cons_self)).withTail hpending
    · exact h.children c (by rw [he]; exact List.mem_cons_of_mem e hc)

theorem IsSound.element (h : f.IsSound) : f.element.IsSound := by
  have hs := h.settle
  refine Element.isSound_mk.2 ⟨⟨hs.name, hs.attributes, hs.nodup, hs.text, by simp [Element.tail]⟩, ?_⟩
  intro c hc
  exact hs.children c (List.mem_reverse.1 hc)

end Frame

/-! ## Events -/

/-- The event has legal characters, and names that are names. -/
def Event.IsSound : Event → Prop
  | char c => isLegal c
  | start name attributes => isQualifiedName name ∧ ∀ a ∈ attributes, IsWritable a
  | stop _ => True

section Frames

variable {f g : Frame} {frames : List Frame}

/-- A step into an element. -/
theorem sound_of_start (hframes : ∀ f ∈ frames, f.IsSound) {label : Text} {given : List (Text × Text)}
    (hx : (Event.start label given).IsSound)
    (hf : Frame.enter? ((frames.head?.map (·.scope)).getD Scope.initial) label given = some f) :
    ∀ g ∈ f :: frames.modifyHead Frame.settle, g.IsSound := by
  cases frames with
  | nil =>
    exact List.forall_mem_cons.2 ⟨Frame.isSound_of_enter? Scope.isSound_initial hx.1 hx.2 hf, by simp⟩
  | cons g frames =>
    rw [List.forall_mem_cons] at hframes
    exact List.forall_mem_cons.2 ⟨Frame.isSound_of_enter? hframes.1.scope hx.1 hx.2 hf,
      List.forall_mem_cons.2 ⟨hframes.1.settle, hframes.2⟩⟩

/-- A step over a character. -/
theorem sound_of_char (hframes : ∀ x ∈ f :: frames, x.IsSound) {c : Char} (hc : isLegal c) :
    ∀ x ∈ { f with pending := c :: f.pending } :: frames, x.IsSound := by
  rw [List.forall_mem_cons] at hframes ⊢
  exact ⟨{ hframes.1 with pending := List.forall_mem_cons.2 ⟨hc, hframes.1.pending⟩ }, hframes.2⟩

/-- A step out of an element. -/
theorem sound_of_stop (hframes : ∀ x ∈ f :: g :: frames, x.IsSound) :
    ∀ x ∈ { g with children := f.element :: g.children } :: frames, x.IsSound := by
  rw [List.forall_mem_cons, List.forall_mem_cons] at hframes
  obtain ⟨hf, hg, hrest⟩ := hframes
  exact List.forall_mem_cons.2 ⟨{ hg with children := List.forall_mem_cons.2 ⟨hf.element, hg.children⟩ }, hrest⟩

/-- **Sound events make sound elements.** -/
theorem build?_sound (hframes : ∀ f ∈ frames, f.IsSound) {events : List Event}
    (hevents : ∀ x ∈ events, x.IsSound) {e : Element} (h : build? frames events = some e) : e.IsSound := by
  fun_induction build? frames events with
  | case1 frames label given events scope =>
    rename_i ih
    obtain ⟨f, hf, h⟩ := Option.bind_eq_some_iff.1 h
    rw [List.forall_mem_cons] at hevents
    exact ih f (sound_of_start hframes hevents.1 hf) hevents.2 h
  | case2 f frames c events ih =>
    rw [List.forall_mem_cons] at hevents
    exact ih (sound_of_char hframes hevents.1) hevents.2 h
  | case3 => cases h
  | case4 f label events =>
    obtain rfl := Option.some.inj h
    exact (hframes f List.mem_cons_self).element
  | case5 => cases h
  | case6 f label events hlabel g frames ih =>
    exact ih (sound_of_stop hframes) (List.forall_mem_cons.1 hevents).2 h
  | case7 => cases h

/-- **Sound events leave sound elements open.** -/
theorem openAfter?_sound (hframes : ∀ f ∈ frames, f.IsSound) {events : List Event}
    (hevents : ∀ x ∈ events, x.IsSound) {opened : List Frame} (h : openAfter? frames events = some opened) :
    ∀ f ∈ opened, f.IsSound := by
  fun_induction openAfter? frames events with
  | case1 frames =>
    obtain rfl := Option.some.inj h
    exact hframes
  | case2 frames label given events scope ih =>
    obtain ⟨f, hf, h⟩ := Option.bind_eq_some_iff.1 h
    rw [List.forall_mem_cons] at hevents
    exact ih f (sound_of_start hframes hevents.1 hf) hevents.2 h
  | case3 events f frames c ih =>
    rw [List.forall_mem_cons] at hevents
    exact ih (sound_of_char hframes hevents.1) hevents.2 h
  | case4 => cases h
  | case5 events f g frames label hlabel ih =>
    exact ih (sound_of_stop hframes) (List.forall_mem_cons.1 hevents).2 h
  | case6 => cases h

end Frames

/-! ## Tokens -/

/-- The piece is no illegal character. -/
def Piece.IsSound : Piece → Prop
  | char c => isLegal c
  | entity _ => True

/-- The token has legal characters, and names that are names. -/
def Token.IsSound : Token → Prop
  | char c => isLegal c
  | start name given =>
    isQualifiedName name ∧ ∀ a ∈ given, isQualifiedName a.1 ∧ ∀ p ∈ a.2, p.IsSound
  | _ => True

section Tokens

variable {t after : Text}

theorem reference?_sound {p : Piece} (h : reference? t = some (p, after)) : p.IsSound := by
  have hnumber : ∀ {base t}, numberReference? base t = some (p, after) → p.IsSound := by
    intro base t h
    simp only [numberReference?, Option.bind_eq_bind, Option.bind_eq_some_iff, Option.pure_def,
      Option.some.injEq, Prod.mk.injEq] at h
    obtain ⟨-, -, n, -, c, hc, rfl, -⟩ := h
    unfold characterOf? at hc
    split at hc
    · next hn =>
      obtain rfl := Option.some.inj hc
      exact hn.2
    · cases hc
  unfold reference? at h
  split at h
  · exact hnumber h
  · exact hnumber h
  · simp only [entityReference?, Option.bind_eq_bind, Option.bind_eq_some_iff] at h
    obtain ⟨⟨name, rest⟩, -, h⟩ := h
    split at h
    · split at h
      · next c hc =>
        obtain ⟨rfl, -⟩ := Prod.mk.inj (Option.some.inj h)
        have hcommon : ∀ e ∈ commonEntities, isLegal e.2 := by decide
        obtain ⟨before, rest, he, -⟩ := List.lookup_eq_some_iff.1 hc
        exact hcommon (name, c) (he ▸ List.mem_append_right before List.mem_cons_self)
      · obtain ⟨rfl, -⟩ := Prod.mk.inj (Option.some.inj h)
        trivial
    · cases h

theorem value?_sound {quote : Option Char} {ps : List Piece} (h : value? quote t = some (ps, after)) :
    ∀ p ∈ ps, p.IsSound := by
  fun_induction value? quote t generalizing ps after with
  | case1 =>
    obtain ⟨rfl, -⟩ := Prod.mk.inj (Option.some.inj h)
    simp
  | case2 => cases h
  | case3 =>
    obtain ⟨rfl, -⟩ := Prod.mk.inj (Option.some.inj h)
    simp
  | case4 => cases h
  | case5 => cases h
  | case6 rest p r hr heq hlt ih =>
    obtain ⟨⟨qs, r'⟩, hv, he⟩ := Option.map_eq_some_iff.1 h
    obtain ⟨rfl, -⟩ := Prod.mk.inj he
    exact List.forall_mem_cons.2 ⟨reference?_sound hr, ih hv⟩
  | case7 c rest heq hlt hamp hspace ih =>
    obtain ⟨⟨qs, r'⟩, hv, he⟩ := Option.map_eq_some_iff.1 h
    obtain ⟨rfl, -⟩ := Prod.mk.inj he
    have hblank : isLegal ' ' := by decide
    exact List.forall_mem_cons.2 ⟨hblank, ih hv⟩
  | case8 c rest heq hlt hamp hspace hlegal ih =>
    obtain ⟨⟨qs, r'⟩, hv, he⟩ := Option.map_eq_some_iff.1 h
    obtain ⟨rfl, -⟩ := Prod.mk.inj he
    exact List.forall_mem_cons.2 ⟨hlegal, ih hv⟩
  | case9 => cases h

theorem takeName?_sound {name : Text} (h : takeName? t = some (name, after)) : isQualifiedName name := by
  unfold takeName? at h
  dsimp only at h
  split at h
  · next hq =>
    obtain ⟨rfl, -⟩ := Prod.mk.inj (Option.some.inj h)
    exact hq
  · cases h

theorem attribute?_sound {a : Text × List Piece} (h : attribute? t = some (a, after)) :
    isQualifiedName a.1 ∧ ∀ p ∈ a.2, p.IsSound := by
  simp only [attribute?, Option.bind_eq_bind, Option.bind_eq_some_iff] at h
  obtain ⟨⟨name, t₁⟩, hname, t₂, -, h⟩ := h
  split at h
  · cases h
  · split at h
    · obtain ⟨⟨value, rest⟩, hvalue, h⟩ := Option.bind_eq_some_iff.1 h
      obtain ⟨rfl, -⟩ := Prod.mk.inj (Option.some.inj h)
      exact ⟨takeName?_sound hname, value?_sound hvalue⟩
    · cases h

theorem attributes?_sound {given : List (Text × List Piece)} {closed : Bool}
    (h : attributes? t = some (given, closed, after)) :
    ∀ a ∈ given, isQualifiedName a.1 ∧ ∀ p ∈ a.2, p.IsSound := by
  fun_induction attributes? t generalizing given closed after with
  | case1 =>
    obtain ⟨rfl, -⟩ := Prod.mk.inj (Option.some.inj h)
    simp
  | case2 => cases h
  | case3 c rest hspace a r ha hend ih =>
    obtain ⟨⟨more, c', r'⟩, hm, he⟩ := Option.map_eq_some_iff.1 h
    obtain ⟨rfl, -⟩ := Prod.mk.inj he
    exact List.forall_mem_cons.2 ⟨attribute?_sound ha, ih hm⟩
  | case4 =>
    obtain ⟨⟨c', r'⟩, -, he⟩ := Option.map_eq_some_iff.1 h
    obtain ⟨rfl, -⟩ := Prod.mk.inj he
    simp
  | case5 => cases h

theorem startTag?_sound {tokens : List Token} (h : startTag? t = some (tokens, after)) :
    ∀ x ∈ tokens, x.IsSound := by
  simp only [startTag?, Option.bind_eq_bind, Option.bind_eq_some_iff, Option.pure_def,
    Option.some.injEq, Prod.mk.injEq] at h
  obtain ⟨⟨name, t₁⟩, hname, ⟨given, closed, r⟩, hgiven, rfl, -⟩ := h
  refine List.forall_mem_cons.2 ⟨⟨takeName?_sound hname, attributes?_sound hgiven⟩, ?_⟩
  cases closed
  · simp
  · simp [Token.IsSound]

theorem markup?_sound {tokens : List Token} (h : markup? t = some (tokens, after)) :
    ∀ x ∈ tokens, x.IsSound := by
  unfold markup? at h
  split at h
  · obtain ⟨r, -, he⟩ := Option.map_eq_some_iff.1 h
    obtain ⟨rfl, -⟩ := Prod.mk.inj he
    simp
  · split at h
    · obtain ⟨⟨body, r⟩, -, h⟩ := Option.bind_eq_some_iff.1 h
      dsimp only at h
      split at h
      · next hall =>
        obtain ⟨rfl, -⟩ := Prod.mk.inj (Option.some.inj h)
        intro x hx
        obtain ⟨c, hc, rfl⟩ := List.mem_map.1 hx
        exact List.all_eq_true.1 hall c hc
      · cases h
    · split at h
      · obtain ⟨r, -, he⟩ := Option.map_eq_some_iff.1 h
        obtain ⟨rfl, -⟩ := Prod.mk.inj he
        simp
      · obtain ⟨⟨token, r⟩, hend, he⟩ := Option.map_eq_some_iff.1 h
        obtain ⟨rfl, -⟩ := Prod.mk.inj he
        simp only [endTag?, Option.bind_eq_bind, Option.bind_eq_some_iff, Option.pure_def,
          Option.some.injEq, Prod.mk.injEq] at hend
        obtain ⟨name, -, rest, -, rfl, -⟩ := hend
        simp [Token.IsSound]
      · exact startTag?_sound h

theorem next?_sound {tokens : List Token} (h : next? t = some (tokens, after)) :
    ∀ x ∈ tokens, x.IsSound := by
  unfold next? at h
  split at h
  · cases h
  · exact markup?_sound h
  · obtain ⟨⟨piece, r⟩, hr, he⟩ := Option.map_eq_some_iff.1 h
    obtain ⟨rfl, -⟩ := Prod.mk.inj he
    have hp := reference?_sound hr
    cases piece with
    | char c => exact List.forall_mem_singleton.2 hp
    | entity name => simp [Piece.token, Token.IsSound]
  · cases h
  · split at h
    · next hlegal =>
      obtain ⟨rfl, -⟩ := Prod.mk.inj (Option.some.inj h)
      simpa [Token.IsSound] using hlegal
    · cases h

/-- **The tokens of any text are sound.** -/
theorem lex_sound {depth : Nat} {l : Lexed} (h : lex depth t = some l) : ∀ x ∈ l.tokens, x.IsSound := by
  fun_induction lex depth t generalizing l with
  | case1 =>
    obtain rfl := Option.some.inj h
    simp
  | case2 => cases h
  | case3 => cases h
  | case4 depth t hne tokens after hnext =>
    obtain rfl := Option.some.inj h
    exact next?_sound hnext
  | case5 depth t hne tokens after hnext inner hinner hdepth ih =>
    obtain ⟨more, hm, rfl⟩ := Option.map_eq_some_iff.1 h
    intro x hx
    rcases List.mem_append.1 hx with hx | hx
    · exact next?_sound hnext x hx
    · exact ih hm x hx

end Tokens

/-! ## From tokens to elements -/

theorem expandPieces_sound {lenient : Bool} {es : Entities} {ps : List Piece} (hps : ∀ p ∈ ps, p.IsSound)
    {t : Text} (h : expandPieces lenient es ps = some t) : ∀ c ∈ t, isLegal c := by
  fun_induction expandPieces lenient es ps generalizing t with
  | case1 =>
    obtain rfl := Option.some.inj h
    simp
  | case2 es c ps ih =>
    obtain ⟨u, hu, rfl⟩ := Option.map_eq_some_iff.1 h
    rw [List.forall_mem_cons] at hps
    exact List.forall_mem_cons.2 ⟨hps.1, ih hps.2 hu⟩
  | case3 es name ps hnone hlenient ih => exact ih (List.forall_mem_cons.1 hps).2 h
  | case4 => cases h
  | case5 => cases h
  | case6 => cases h
  | case7 => cases h
  | case8 es name ps body hbody inner after hvalue u hu ih₁ ih₂ =>
    obtain ⟨v, hv, rfl⟩ := Option.map_eq_some_iff.1 h
    intro c hc
    rcases List.mem_append.1 hc with hc | hc
    · exact ih₁ (value?_sound hvalue) hu c hc
    · exact ih₂ (List.forall_mem_cons.1 hps).2 hv c hc

/-- Where no attributes are declared, an element has those that it is given. -/
theorem attributes?_sound_of_rules {d : Doctype} (hd : d.rules = []) {es : Entities} {label : Text}
    {given : List (Text × List Piece)} (hgiven : ∀ a ∈ given, isQualifiedName a.1 ∧ ∀ p ∈ a.2, p.IsSound)
    {attributes : List (Text × Text)} (h : Event.attributes? d es label given = some attributes) :
    ∀ a ∈ attributes, IsWritable a := by
  have hdefaults : ∀ names, Event.defaultsOf d label names = [] := by
    intro names
    rw [Event.defaultsOf, hd, List.filterMap_nil]
  have hrule : ∀ name, d.rule? label name = none := by
    intro name
    rw [Doctype.rule?, hd, List.find?_nil]
  obtain ⟨valued, hvalued, h⟩ := Option.bind_eq_some_iff.1 h
  obtain rfl := Option.some.inj h
  rw [hdefaults, List.append_nil]
  intro a ha
  obtain ⟨⟨name, ps⟩, hmem, ha⟩ := exists_of_mem_mapM hvalued ha
  simp only [hrule, Option.bind_eq_bind, Option.bind_eq_some_iff, Option.pure_def, Option.some.injEq,
    Doctype.valueOf?, Option.map_eq_some_iff] at ha
  obtain ⟨-, ⟨t, ht, rfl⟩, rfl⟩ := ha
  obtain ⟨hname, hps⟩ := hgiven _ hmem
  exact ⟨hname, expandPieces_sound hps ht⟩

/-- **The events of sound tokens are sound**, if no attributes are declared. -/
theorem Event.ofTokens?_sound {d : Doctype} (hd : d.rules = []) {es : Entities} {tokens : List Token}
    (htokens : ∀ x ∈ tokens, x.IsSound) {events : List Event} (h : ofTokens? d es tokens = some events) :
    ∀ x ∈ events, x.IsSound := by
  fun_induction ofTokens? d es tokens generalizing events with
  | case1 =>
    obtain rfl := Option.some.inj h
    simp
  | case2 es c tokens ih =>
    obtain ⟨rest, hrest, rfl⟩ := Option.map_eq_some_iff.1 h
    rw [List.forall_mem_cons] at htokens
    exact List.forall_mem_cons.2 ⟨htokens.1, ih htokens.2 hrest⟩
  | case3 es name tokens ih =>
    obtain ⟨rest, hrest, rfl⟩ := Option.map_eq_some_iff.1 h
    rw [List.forall_mem_cons] at htokens
    exact List.forall_mem_cons.2 ⟨trivial, ih htokens.2 hrest⟩
  | case4 => cases h
  | case5 es name given tokens attributes hattributes ih =>
    obtain ⟨rest, hrest, rfl⟩ := Option.map_eq_some_iff.1 h
    rw [List.forall_mem_cons] at htokens
    obtain ⟨hname, hgiven⟩ := htokens.1
    exact List.forall_mem_cons.2
      ⟨⟨hname, attributes?_sound_of_rules hd hgiven hattributes⟩, ih htokens.2 hrest⟩
  | case6 => cases h
  | case7 es name tokens body hbody inner hlex xs hxs ih₁ ih₂ =>
    obtain ⟨rest, hrest, rfl⟩ := Option.map_eq_some_iff.1 h
    intro x hx
    rcases List.mem_append.1 hx with hx | hx
    · exact ih₁ (lex_sound hlex) hxs x hx
    · exact ih₂ (List.forall_mem_cons.1 htokens).2 hrest x hx
  | case8 => cases h
  | case9 => cases h

/-- **The root of a document without declared attributes is sound.** -/
theorem parse?_sound {t : Text} {root : Element} (h : parse? t = some root)
    (hd : ∀ d after, prolog? (normalized t) = some (d, after) → d.rules = []) : root.IsSound := by
  rw [parse?_eq] at h
  obtain ⟨⟨d, after⟩, hprolog, h⟩ := Option.bind_eq_some_iff.1 h
  obtain ⟨l, hlex, h⟩ := Option.bind_eq_some_iff.1 h
  split at h
  · obtain ⟨events, hevents, h⟩ := Option.bind_eq_some_iff.1 h
    exact build?_sound (by simp) (Event.ofTokens?_sound (hd d after hprolog) (lex_sound hlex) hevents) h
  · cases h

/-- The elements that the start of such a document leaves open are sound. -/
theorem opened?_sound {t : Text} {d : Doctype} {frames : List Frame} (h : opened? t = some (d, frames))
    (hd : d.rules = []) : ∀ f ∈ frames, f.IsSound := by
  simp only [opened?, Option.bind_eq_bind, Option.bind_eq_some_iff] at h
  obtain ⟨⟨d', after⟩, hprolog, l, hlex, h⟩ := h
  split at h
  · simp only [Option.pure_def, Option.bind_eq_some_iff, Option.some.injEq, Prod.mk.injEq] at h
    obtain ⟨events, hevents, frames', hframes, rfl, rfl⟩ := h
    exact openAfter?_sound (by simp) (Event.ofTokens?_sound hd (lex_sound hlex) hevents) hframes
  · cases h

end MailMerge.Xml
