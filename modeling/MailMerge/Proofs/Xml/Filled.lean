import MailMerge.Proofs.Xml.Prolog
import MailMerge.Proofs.Xml.Tag
import Mathlib.Data.List.Forall2

/-!
# More content in a document

A document that consists of a declaration and of one element around content is read as that element.

A document is cut in two at a place inside an element, where a tag follows. If content is put there, the
document stays well-formed: the same elements are open at the place, and they only get more children.

In a document without references to entities and without declared attributes nothing is replaced: each token is
an event. Such a document is read without its entities, by recursion on the tokens.

**`parse?_written`**: the element of a document as it is written has the items of the content in it.

**`parse?_filled`**: the document with content at such a place has a root of the same name, with a child
for each name that a child had before.
-/

namespace MailMerge.Xml

variable {t name declared : Text} {standsAlone : Bool}

theorem normalized_of_dropStart?_eq_none (h : Text.dropStart? ['\uFEFF'] t = none) :
    normalized t = withNewlines t := by
  rw [normalized, h, Option.getD_none]

theorem BeginsElement.of_isQualifiedName {u : Text} (h : isQualifiedName name) (hu : u ≠ []) :
    BeginsElement ('<' :: name ++ u) := by
  obtain ⟨c, v, rfl, hstart⟩ := exists_cons_of_isQualifiedName h
  have hc : c ≠ '?' ∧ c ≠ '!' := by
    constructor <;>
    · rintro rfl
      exact absurd hstart (by decide)
  cases v with
  | nil =>
    obtain ⟨d, w, rfl⟩ := List.exists_cons_of_ne_nil hu
    exact ⟨c, d, w, rfl, hc⟩
  | cons d v => exact ⟨c, d, v ++ u, rfl, hc⟩

/-- After a declaration the element of the document may follow at once. -/
theorem prolog?_of_beginsElement (h : declaration? t = some (standsAlone, declared))
    (he : BeginsElement declared) : prolog? t = some ({ standsAlone }, declared) := by
  obtain ⟨c, d, u, rfl, hc, hc'⟩ := he
  have hskip : skipMisc ('<' :: c :: d :: u) = '<' :: c :: d :: u :=
    skipMisc_of_stops (BeginsElement.stops ⟨c, d, u, rfl, hc, hc'⟩)
  simp [prolog?, h, hskip, doctype?, Text.dropStart?, hc'.symm]

/-- The tokens of an element around content are those of a document, if the element is the outermost. -/
theorem lex_element {opened closing : Text} {given : List (Text × List Piece)} {ts : List Token}
    (hopened : markup? opened = some ([.start name given], []))
    (hclosing : markup? closing = some ([.stop name], [])) (ht : Lexes t ts) :
    lex 0 ('<' :: opened ++ t ++ '<' :: closing) = some ⟨.start name given :: ts ++ [.stop name], 0, []⟩ := by
  have hstart : next? ('<' :: opened ++ t ++ '<' :: closing) =
      some ([.start name given], t ++ '<' :: closing) := by
    simpa [next?] using markup?_append hopened (t ++ '<' :: closing)
  have hstop : lex 1 ('<' :: closing) = some ⟨[.stop name], 0, []⟩ :=
    lex_of_closed (t := '<' :: closing) hclosing rfl
  rw [lex_of_next? hstart rfl, ht 0 _ rfl, hstop]
  simp [Lexed.prepend]

/-- The events of an element that is the outermost make the element. -/
theorem build?_element {attributes : List (Text × Text)} {g : Frame} {events : List Event}
    {items : List Item} (hg : Frame.enter? Scope.initial name attributes = some g)
    (h : Builds g.scope events items) :
    build? [] (.start name attributes :: events ++ [.stop name]) = some (g.addAll items).element := by
  have hlabel : (g.addAll items).label = name :=
    (g.addAll_label items).1.trans (Frame.label_of_enter? hg).1
  rw [List.cons_append, build?]
  simp only [List.head?_nil, Option.map_none, Option.getD_none, hg, Option.bind_eq_bind,
    Option.bind_some, List.modifyHead_nil]
  rw [h g [] _ rfl, build?, if_neg (fun hne => hne hlabel.symm)]
  rfl

/-- **A document that is written as one element around content is read as this element.** -/
theorem parse?_written {attributes : List (Text × Text)} {g : Frame} {items : List Item}
    (hmark : ∀ u, u.head? = some '<' → Text.dropStart? ['\uFEFF'] (declared ++ u) = none) (hreturn : '\r' ∉ declared)
    (hdecl : ∀ u, u.head? = some '<' → declaration? (declared ++ u) = some (standsAlone, u))
    (hname : isQualifiedName name) (has : ∀ a ∈ attributes, IsWritable a)
    (hg : Frame.enter? Scope.initial name attributes = some g)
    (h : Content { standsAlone } g.scope t items) :
    parse? (declared ++ ('<' :: (name ++ settings attributes ++ ['>']) ++ t ++
      '<' :: ('/' :: name ++ ['>']))) = some (g.addAll items).element := by
  obtain ⟨ts, events, hts, hevents, hbuilds⟩ := h
  have hr := return_not_mem_of_isQualifiedName hname
  have hs := return_not_mem_settings has
  have hopened : '\r' ∉ declared ++ '<' :: (name ++ settings attributes ++ ['>']) := by
    simp [hreturn, hr, hs]
  have hlines : normalized (declared ++ ('<' :: (name ++ settings attributes ++ ['>']) ++ t ++
      '<' :: ('/' :: name ++ ['>']))) =
        declared ++ ('<' :: (name ++ settings attributes ++ ['>']) ++ withNewlines t ++
          '<' :: ('/' :: name ++ ['>'])) := by
    rw [normalized_of_dropStart?_eq_none (hmark _ rfl), List.append_assoc, ← List.append_assoc,
      withNewlines_append_left hopened, withNewlines_append t (by simp),
      @withNewlines_of_not_mem ('<' :: ('/' :: name ++ ['>'])) (by simp [hr])]
    simp
  have hbegins : BeginsElement ('<' :: (name ++ settings attributes ++ ['>']) ++ withNewlines t ++
      '<' :: ('/' :: name ++ ['>'])) := by
    have := BeginsElement.of_isQualifiedName hname (u := settings attributes ++ ['>'] ++
      withNewlines t ++ '<' :: ('/' :: name ++ ['>'])) (by simp)
    simpa using this
  rw [parse?_eq, hlines, prolog?_of_beginsElement (hdecl _ rfl) hbegins]
  have hstop : Event.ofTokens? { standsAlone } [] [.stop name] = some [.stop name] := by
    rw [Event.ofTokens?, Event.ofTokens?, Option.map_some]
  have hall : Event.ofTokens? { standsAlone } []
      (.start name (plainAttributes attributes) :: ts ++ [.stop name]) =
        some (.start name attributes :: events ++ [.stop name]) := by
    rw [List.cons_append, Event.ofTokens?, attributes?_plain rfl]
    dsimp only
    rw [Event.ofTokens?_append hevents hstop, Option.map_some, List.cons_append]
  have hlex := lex_element (markup?_opening hname has) (markup?_closing hname) hts
  simp only [Option.bind_eq_bind, Option.bind_some, hlex, hall, build?_element hg hbuilds]
  rw [if_pos ⟨trivial, by rw [skipMisc]⟩]

end MailMerge.Xml

namespace MailMerge.Xml

variable {head inner foot : Text} {d : Doctype} {f : Frame} {frames : List Frame}

/-! ## Open elements -/

/-- The elements that are open after events, if the outermost of them is not closed. -/
def openAfter? : List Frame → List Event → Option (List Frame)
  | frames, [] => some frames
  | frames, .start label attributes :: events => do
    let scope := (frames.head?.map (·.scope)).getD Scope.initial
    let f ← Frame.enter? scope label attributes
    openAfter? (f :: frames.modifyHead Frame.settle) events
  | f :: frames, .char c :: events => openAfter? ({ f with pending := c :: f.pending } :: frames) events
  | f :: g :: frames, .stop label :: events =>
    if label ≠ f.label then none
    else openAfter? ({ g with children := f.element :: g.children } :: frames) events
  | _, _ => none

/-- The events after others are read with the elements that these have left open. -/
theorem build?_append {frames opened : List Frame} {xs : List Event}
    (h : openAfter? frames xs = some opened) (ys : List Event) :
    build? frames (xs ++ ys) = build? opened ys := by
  fun_induction openAfter? frames xs with
  | case1 frames =>
    obtain rfl := Option.some.inj h
    rfl
  | case2 frames label attributes events scope ih =>
    obtain ⟨f, hf, h⟩ := Option.bind_eq_some_iff.1 h
    rw [List.cons_append, build?, hf]
    exact ih f h
  | case3 events f frames c ih =>
    rw [List.cons_append, build?]
    exact ih h
  | case4 => cases h
  | case5 events f g frames label hlabel ih =>
    rw [List.cons_append, build?, if_neg hlabel]
    exact ih h
  | case6 => cases h

/-- The document type of the start of a document, and the elements that it leaves open, the innermost
first. -/
def opened? (t : Text) : Option (Doctype × List Frame) := do
  let (d, t) ← prolog? (normalized t)
  let lexed ← lex 0 t
  if lexed.depth ≠ 0 ∧ lexed.rest = [] then
    let events ← Event.ofTokens? d d.entities lexed.tokens
    return (d, ← openAfter? [] events)
  else none

/-! ## Where elements are left open, one has begun -/

theorem beginsElement_of_startTag? {t after : Text} {tokens : List Token}
    (h : startTag? t = some (tokens, after)) : BeginsElement ('<' :: t) := by
  simp only [startTag?, Option.bind_eq_bind, Option.bind_eq_some_iff] at h
  obtain ⟨⟨name, rest⟩, htake, ⟨given, closed, more⟩, hattributes, -⟩ := h
  have hrest : rest ≠ [] := by
    rintro rfl
    rw [attributes?] at hattributes
    cases hattributes
  obtain ⟨hname, rfl, -⟩ := of_takeName? htake
  exact .of_isQualifiedName hname hrest

/-- Characters leave the number of open elements as it is. -/
theorem depthAfter_chars (depth : Nat) (t : Text) : depthAfter depth (t.map .char) = some depth := by
  induction t with
  | nil => rfl
  | cons c t ih => exact ih

theorem beginsElement_of_next? {t after : Text} {tokens : List Token} {k : Nat}
    (h : next? t = some (tokens, after)) (hdepth : depthAfter 0 tokens = some (k + 1)) :
    BeginsElement t := by
  unfold next? at h
  split at h
  · cases h
  · next t =>
    unfold markup? at h
    split at h
    · obtain ⟨r, -, he⟩ := Option.map_eq_some_iff.1 h
      obtain ⟨rfl, -⟩ := Prod.mk.inj he
      cases hdepth
    · split at h
      · unfold characterData? at h
        obtain ⟨⟨body, rest⟩, -, h⟩ := Option.bind_eq_some_iff.1 h
        dsimp only at h
        split at h
        · obtain ⟨rfl, -⟩ := Prod.mk.inj (Option.some.inj h)
          rw [depthAfter_chars] at hdepth
          cases hdepth
        · cases h
      · split at h
        · obtain ⟨r, -, he⟩ := Option.map_eq_some_iff.1 h
          obtain ⟨rfl, -⟩ := Prod.mk.inj he
          cases hdepth
        · obtain ⟨⟨token, r⟩, hend, he⟩ := Option.map_eq_some_iff.1 h
          obtain ⟨rfl, -⟩ := Prod.mk.inj he
          simp only [endTag?, Option.bind_eq_bind, Option.bind_eq_some_iff, Option.pure_def,
            Option.some.injEq, Prod.mk.injEq] at hend
          obtain ⟨name, -, rest, -, rfl, -⟩ := hend
          cases hdepth
        · exact beginsElement_of_startTag? h
  · obtain ⟨⟨piece, r⟩, -, he⟩ := Option.map_eq_some_iff.1 h
    obtain ⟨rfl, -⟩ := Prod.mk.inj he
    cases piece <;> cases hdepth
  · cases h
  · split at h
    · obtain ⟨rfl, -⟩ := Prod.mk.inj (Option.some.inj h)
      cases hdepth
    · cases h

theorem beginsElement_of_lex {t : Text} {tokens : List Token} {k : Nat}
    (h : lex 0 t = some ⟨tokens, k + 1, []⟩) : BeginsElement t := by
  have hne : t ≠ [] := by
    rintro rfl
    rw [lex_nil] at h
    cases h
  obtain ⟨ts, after, j, us, hnext, hdepth, -, -⟩ := lex_open_cases h hne
  exact beginsElement_of_next? hnext hdepth

/-! ## Elements with more children -/

/-- The second element has the name of the first, and a child for each name of a child. -/
structure Element.Grown (e e' : Element) : Prop where
  name : e'.name = e.name
  children : ∀ c ∈ e.children, ∃ c' ∈ e'.children, c'.name = c.name

/-- The same for open elements, which have to agree in all that is read from now on. -/
structure Frame.Grown (f g : Frame) : Prop where
  label : g.label = f.label
  scope : g.scope = f.scope
  name : g.name = f.name
  children : ∀ c ∈ f.children, ∃ c' ∈ g.children, c'.name = c.name

namespace Frame

variable {g : Frame}

theorem Grown.refl (f : Frame) : Grown f f :=
  ⟨rfl, rfl, rfl, fun c hc => ⟨c, hc, rfl⟩⟩

theorem Grown.trans {h : Frame} (hfg : Grown f g) (hgh : Grown g h) : Grown f h where
  label := hgh.label.trans hfg.label
  scope := hgh.scope.trans hfg.scope
  name := hgh.name.trans hfg.name
  children c hc := by
    obtain ⟨c', hc', hname⟩ := hfg.children c hc
    obtain ⟨c'', hc'', hname'⟩ := hgh.children c' hc'
    exact ⟨c'', hc'', hname'.trans hname⟩

/-- Putting the text where it belongs changes the names of no children. -/
theorem map_name_settle (f : Frame) : f.settle.children.map (·.name) = f.children.map (·.name) := by
  unfold settle
  split
  · next h => rw [h]
  · next h =>
    rw [h]
    rfl

theorem name_settle (f : Frame) : f.settle.name = f.name := by
  unfold settle
  split
  · rfl
  · rfl

theorem exists_mem_of_map_name {es es' : List Element}
    (h : ∀ n ∈ es.map (·.name), n ∈ es'.map (·.name)) : ∀ c ∈ es, ∃ c' ∈ es', c'.name = c.name := by
  intro c hc
  exact List.mem_map.1 (h _ (List.mem_map_of_mem hc))

theorem Grown.mem_map_name (h : Grown f g) :
    ∀ n ∈ f.children.map (·.name), n ∈ g.children.map (·.name) := by
  intro n hn
  obtain ⟨c, hc, rfl⟩ := List.mem_map.1 hn
  obtain ⟨c', hc', hname⟩ := h.children c hc
  exact List.mem_map.2 ⟨c', hc', hname⟩

theorem Grown.settle (h : Grown f g) : Grown f.settle g.settle where
  label := (g.settle_label.1.trans h.label).trans f.settle_label.1.symm
  scope := (g.settle_label.2.trans h.scope).trans f.settle_label.2.symm
  name := (g.name_settle.trans h.name).trans f.name_settle.symm
  children := exists_mem_of_map_name (by
    rw [map_name_settle, map_name_settle]
    exact h.mem_map_name)

theorem Grown.element (h : Grown f g) : Element.Grown f.element g.element where
  name := h.settle.name
  children c hc := by
    obtain ⟨c', hc', hname⟩ := h.settle.children c (List.mem_reverse.1 hc)
    exact ⟨c', List.mem_reverse.2 hc', hname⟩

/-- One more item is one more child at most. -/
theorem grown_add (f : Frame) (item : Item) : Grown f (f.add item) where
  label := (f.add_label item).1
  scope := (f.add_label item).2
  name := by
    cases item with
    | char c => rfl
    | element e => exact f.name_settle
  children := by
    cases item with
    | char c => exact (Grown.refl f).children
    | element e =>
      refine exists_mem_of_map_name fun n hn => ?_
      rw [← map_name_settle] at hn
      exact List.mem_cons_of_mem _ hn

theorem grown_addAll (f : Frame) (items : List Item) : Grown f (f.addAll items) := by
  induction items generalizing f with
  | nil => exact .refl f
  | cons item items ih => exact (f.grown_add item).trans (ih (f.add item))

/-- A child more in both. -/
theorem Grown.cons {e e' : Element} (h : Grown f g) (he : Element.Grown e e') :
    Grown { f with children := e :: f.children } { g with children := e' :: g.children } where
  label := h.label
  scope := h.scope
  name := h.name
  children c hc := by
    rcases List.mem_cons.1 hc with rfl | hc
    · exact ⟨e', List.mem_cons_self, he.name⟩
    · obtain ⟨c', hc', hname⟩ := h.children c hc
      exact ⟨c', List.mem_cons_of_mem _ hc', hname⟩

end Frame

/-- **The same events close open elements that have more children.** -/
theorem build?_grown {fs gs : List Frame} (h : List.Forall₂ Frame.Grown fs gs) {events : List Event}
    {e : Element} (he : build? fs events = some e) :
    ∃ e', build? gs events = some e' ∧ Element.Grown e e' := by
  fun_induction build? fs events generalizing gs with
  | case1 fs label attributes events scope =>
    rename_i ih
    obtain ⟨f, hf, he⟩ := Option.bind_eq_some_iff.1 he
    have hscope : (gs.head?.map (·.scope)).getD Scope.initial = scope := by
      cases h with
      | nil => rfl
      | cons hfg _ => exact hfg.scope
    have hsettled : List.Forall₂ Frame.Grown (fs.modifyHead Frame.settle) (gs.modifyHead Frame.settle) := by
      cases h with
      | nil => exact .nil
      | cons hfg hrest => exact .cons hfg.settle hrest
    obtain ⟨e', he', hgrown⟩ := ih f (.cons (.refl f) hsettled) he
    refine ⟨e', ?_, hgrown⟩
    rw [build?, hscope, hf]
    exact he'
  | case2 f fs c events ih =>
    obtain _ | ⟨hfg, hrest⟩ := h
    exact ih (.cons ⟨hfg.label, hfg.scope, hfg.name, hfg.children⟩ hrest) he
  | case3 => cases he
  | case4 f label events hlabel hempty =>
    obtain _ | ⟨hfg, _ | _⟩ := h
    obtain rfl := Option.some.inj he
    rename_i g
    refine ⟨g.element, ?_, hfg.element⟩
    rw [build?, if_neg (by rwa [hfg.label]), if_pos hempty]
  | case5 => cases he
  | case6 f label events hlabel g fs ih =>
    obtain _ | ⟨hfg, _ | ⟨hg, hrest⟩⟩ := h
    obtain ⟨e', he', hgrown⟩ := ih (.cons (hg.cons hfg.element) hrest) he
    refine ⟨e', ?_, hgrown⟩
    rw [build?, if_neg (by rwa [hfg.label])]
    exact he'
  | case7 => cases he

/-! ## Content at the place -/

theorem dropStart?_of_ne_nil (c : Char) {t : Text} (h : t ≠ []) (u : Text) :
    (Text.dropStart? [c] (t ++ u)).getD (t ++ u) = (Text.dropStart? [c] t).getD t ++ u := by
  obtain ⟨x, t, rfl⟩ := List.exists_cons_of_ne_nil h
  by_cases hx : c = x
  · simp [Text.dropStart?, hx]
  · simp [Text.dropStart?, hx]

theorem getLast?_dropStart? (c : Char) {t : Text} {x : Char} (h : t.getLast? ≠ some x) :
    ((Text.dropStart? [c] t).getD t).getLast? ≠ some x := by
  cases ht : Text.dropStart? [c] t with
  | none => exact h
  | some v =>
    rw [Text.eq_append_of_dropStart? ht] at h
    cases v with
    | nil => simp
    | cons y v => simpa using h

theorem normalized_append {t u : Text} (ht : t ≠ []) (h : t.getLast? ≠ some '\r' ∨ u.head? ≠ some '\n') :
    normalized (t ++ u) = normalized t ++ withNewlines u := by
  rw [normalized, dropStart?_of_ne_nil _ ht, withNewlines_append_of (h.imp_left (getLast?_dropStart? _)), normalized]

theorem head?_withNewlines {t : Text} (h : t.head? = some '<') : (withNewlines t).head? = some '<' := by
  obtain ⟨u, rfl⟩ := List.head?_eq_some_iff.1 h
  simp [withNewlines_cons]

/-- The element that is read from the tokens of a document. -/
def Lexed.element? (d : Doctype) (l : Lexed) : Option Element :=
  if l.depth = 0 ∧ skipMisc l.rest = [] then
    (Event.ofTokens? d d.entities l.tokens).bind (build? [])
  else none

/-- After the start of a document the elements are open. What follows is read by itself, if it is allowed, and its
tokens come after those of the start. -/
def Leaves (head : Text) (d : Doctype) (fs : List Frame) (allowed : Text → Prop) : Prop :=
  ∃ depth tokens events, Event.ofTokens? d d.entities tokens = some events ∧
    openAfter? [] events = some fs ∧ ∀ u, allowed u →
      parse? (head ++ u) = (lex (depth + 1) (withNewlines u)).bind fun l => (l.prepend tokens).element? d

/-- A tag may follow the start of a document. -/
theorem leaves_of_opened {fs : List Frame} (h : opened? head = some (d, fs)) :
    Leaves head d fs fun u => u.head? = some '<' := by
  simp only [opened?, Option.bind_eq_bind, Option.bind_eq_some_iff] at h
  obtain ⟨⟨d', t⟩, hprolog, ⟨tokens, depth, rest⟩, hlex, h⟩ := h
  dsimp only at hlex h
  split at h
  · next hend =>
    simp only [Option.pure_def, Option.bind_eq_some_iff, Option.some.injEq, Prod.mk.injEq] at h
    obtain ⟨events, hevents, fs', hfs, rfl, rfl⟩ := h
    obtain ⟨hdepth, rfl⟩ := hend
    obtain ⟨depth, rfl⟩ := Nat.exists_eq_succ_of_ne_zero hdepth
    have hbegins := beginsElement_of_lex hlex
    have hhead : head ≠ [] := by
      rintro rfl
      have hnil : (prolog? (normalized [])).map Prod.snd = some [] := by decide +kernel
      rw [hprolog] at hnil
      obtain rfl := Option.some.inj hnil
      obtain ⟨_, _, _, he, -⟩ := hbegins
      cases he
    refine ⟨depth, tokens, events, hevents, hfs, fun u hu => ?_⟩
    rw [parse?_eq, normalized_append hhead (.inr (by simp [hu])), prolog?_append hprolog hbegins]
    simp only [Option.bind_eq_bind, Option.bind_some, lex_append hlex (head?_withNewlines hu), Option.bind_map]
    rfl
  · cases h

/-- The events of what follows a place inside an element, up to the end of the document. -/
def eventsAfter? (d : Doctype) (depth : Nat) (foot : Text) : Option (List Event) := do
  let l ← lex (depth + 1) (withNewlines foot)
  if l.depth = 0 ∧ skipMisc l.rest = [] then Event.ofTokens? d d.entities l.tokens else none

/-- **A document is read by the content at a place, and the events of what follows it.** -/
theorem Leaves.parse?_content {allowed : Text → Prop} (h : Leaves head d (f :: frames) allowed)
    (hfoot : foot.head? = some '<') :
    ∃ depth, ∀ {inner items}, Content d f.scope inner items → allowed (inner ++ foot) →
      parse? (head ++ inner ++ foot) = (eventsAfter? d depth foot).bind (build? (f.addAll items :: frames)) := by
  obtain ⟨depth, ts, xs, hxs, hfs, hparse⟩ := h
  refine ⟨depth, ?_⟩
  rintro inner items ⟨us, ys, hus, hys, hbuilds⟩ hallowed
  rw [List.append_assoc, hparse _ hallowed, withNewlines_append inner (by simp [hfoot]),
    hus depth _ (head?_withNewlines hfoot), eventsAfter?]
  cases lex (depth + 1) (withNewlines foot) with
  | none => rfl
  | some l =>
    rw [Option.map_some, Option.bind_some, Option.bind_eq_bind, Option.bind_some]
    show (if l.depth = 0 ∧ skipMisc l.rest = [] then _ else none) = _
    split
    · simp only [Lexed.prepend, Event.ofTokens?_append_eq, hxs, hys, Option.bind_eq_bind, Option.bind_some,
        Option.pure_def, Option.bind_assoc]
      congr 1
      funext zs
      rw [build?_append hfs, hbuilds f frames zs rfl]
    · rfl

/-- **A document with content at a place inside an element stays well-formed**, with a root that has
grown. -/
theorem parse?_filled {items : List Item} {root : Element} (hopened : opened? head = some (d, f :: frames))
    (hinner : Content d f.scope inner items) (htag : Tagged inner) (hfoot : foot.head? = some '<')
    (hroot : parse? (head ++ foot) = some root) :
    ∃ root', parse? (head ++ inner ++ foot) = some root' ∧ Element.Grown root root' := by
  obtain ⟨depth, hparse⟩ := (leaves_of_opened hopened).parse?_content hfoot
  have hempty := hparse .nil hfoot
  rw [List.append_nil, hroot, eq_comm, Option.bind_eq_some_iff] at hempty
  obtain ⟨zs, hzs, hbuild⟩ := hempty
  rw [hparse hinner (htag.head?_append hfoot), hzs]
  refine build?_grown (.cons (f.grown_addAll items) (List.forall₂_same.2 fun g _ => ?_)) hbuild
  exact .refl g

end MailMerge.Xml

namespace MailMerge.Xml

/-! ## Events of tokens -/

/-- The character of a piece that is no reference. -/
def Piece.char? : Piece → Option Char
  | char c => some c
  | entity _ => none

/-- An attribute without references. -/
def literalAttribute? (a : Text × List Piece) : Option (Text × Text) :=
  (a.2.mapM Piece.char?).map fun value => (a.1, value)

/-- The event of a token without references. -/
def Token.event? : Token → Option Event
  | char c => some (.char c)
  | entity _ => none
  | start name given => (given.mapM literalAttribute?).map (.start name)
  | stop name => some (.stop name)

theorem eq_map_of_mapM_char? {ps : List Piece} {value : Text} (h : ps.mapM Piece.char? = some value) :
    ps = value.map .char := by
  induction ps generalizing value with
  | nil =>
    obtain rfl := Option.some.inj h
    rfl
  | cons p ps ih =>
    simp only [List.mapM_cons, Option.bind_eq_bind, Option.bind_eq_some_iff, Option.pure_def,
      Option.some.injEq] at h
    obtain ⟨c, hc, rest, hrest, rfl⟩ := h
    cases p with
    | char c' =>
      obtain rfl := Option.some.inj hc
      rw [List.map_cons, ← ih hrest]
    | entity name => cases hc

theorem eq_plainAttributes_of_mapM {given : List (Text × List Piece)} {attributes : List (Text × Text)}
    (h : given.mapM literalAttribute? = some attributes) : given = plainAttributes attributes := by
  induction given generalizing attributes with
  | nil =>
    obtain rfl := Option.some.inj h
    rfl
  | cons a given ih =>
    simp only [List.mapM_cons, Option.bind_eq_bind, Option.bind_eq_some_iff, Option.pure_def,
      Option.some.injEq] at h
    obtain ⟨x, hx, rest, hrest, rfl⟩ := h
    obtain ⟨value, hvalue, rfl⟩ := Option.map_eq_some_iff.1 hx
    rw [plainAttributes, List.map_cons, ← plainAttributes, ← ih hrest]
    dsimp only
    rw [← eq_map_of_mapM_char? hvalue]

/-- **Tokens without references are events, one by one.** -/
theorem ofTokens?_of_mapM {d : Doctype} (hd : d.rules = []) {es : Entities} {tokens : List Token}
    {events : List Event} (h : tokens.mapM Token.event? = some events) :
    Event.ofTokens? d es tokens = some events := by
  induction tokens generalizing events with
  | nil =>
    obtain rfl := Option.some.inj h
    rw [Event.ofTokens?]
    rfl
  | cons t tokens ih =>
    simp only [List.mapM_cons, Option.bind_eq_bind, Option.bind_eq_some_iff, Option.pure_def,
      Option.some.injEq] at h
    obtain ⟨event, hevent, rest, hrest, rfl⟩ := h
    have hrest := ih hrest
    cases t with
    | char c =>
      obtain rfl := Option.some.inj hevent
      rw [Event.ofTokens?, hrest, Option.map_some]
    | entity name => cases hevent
    | start name given =>
      obtain ⟨attributes, hattributes, rfl⟩ := Option.map_eq_some_iff.1 hevent
      rw [eq_plainAttributes_of_mapM hattributes, Event.ofTokens?, attributes?_plain hd]
      dsimp only
      rw [hrest, Option.map_some]
    | stop name =>
      obtain rfl := Option.some.inj hevent
      rw [Event.ofTokens?, hrest, Option.map_some]

/-! ## Documents -/

/-- What a document without references and without declared attributes is cut into: its document type, its
tokens, and their events. -/
def literal? (t : Text) : Option (Doctype × Lexed × List Event) := do
  let (d, t) ← prolog? (normalized t)
  let lexed ← lex 0 t
  let events ← lexed.tokens.mapM Token.event?
  if d.rules = [] then some (d, lexed, events) else none

/-- The element of such a document. -/
def literalElement? (t : Text) : Option Element := do
  let (_, lexed, events) ← literal? t
  if lexed.depth = 0 ∧ skipMisc lexed.rest = [] then build? [] events else none

/-- The document type and the open elements at the end of the start of such a document. -/
def literalOpened? (t : Text) : Option (Doctype × List Frame) := do
  let (d, lexed, events) ← literal? t
  if lexed.depth ≠ 0 ∧ lexed.rest = [] then return (d, ← openAfter? [] events) else none

theorem eq_of_literal? {t : Text} {d : Doctype} {lexed : Lexed} {events : List Event}
    (h : literal? t = some (d, lexed, events)) :
    d.rules = [] ∧ ∃ u, prolog? (normalized t) = some (d, u) ∧ lex 0 u = some lexed ∧
      Event.ofTokens? d d.entities lexed.tokens = some events := by
  simp only [literal?, Option.bind_eq_bind, Option.bind_eq_some_iff] at h
  obtain ⟨⟨d', u⟩, hprolog, lexed', hlex, events', hevents, hsame⟩ := h
  split at hsame
  · next hrules =>
    cases hsame
    exact ⟨hrules, u, hprolog, hlex, ofTokens?_of_mapM hrules hevents⟩
  · cases hsame

/-- **The element of a document that stands for itself.** -/
theorem parse?_of_literal {t : Text} {e : Element} (h : literalElement? t = some e) : parse? t = some e := by
  simp only [literalElement?, Option.bind_eq_bind, Option.bind_eq_some_iff] at h
  obtain ⟨⟨d, lexed, events⟩, hliteral, hbuild⟩ := h
  obtain ⟨-, u, hprolog, hlex, hevents⟩ := eq_of_literal? hliteral
  rw [parse?_eq, hprolog]
  simp only [Option.bind_eq_bind, Option.bind_some, hlex, hevents]
  exact hbuild

theorem rules_of_literal {t u : Text} {e : Element} {d : Doctype} (h : literalElement? t = some e)
    (hprolog : prolog? (normalized t) = some (d, u)) : d.rules = [] := by
  simp only [literalElement?, Option.bind_eq_bind, Option.bind_eq_some_iff] at h
  obtain ⟨⟨d', lexed, events⟩, hliteral, -⟩ := h
  obtain ⟨hrules, u', hprolog', -⟩ := eq_of_literal? hliteral
  cases hprolog'.symm.trans hprolog
  exact hrules

theorem opened?_of_literal {t : Text} {d : Doctype} {frames : List Frame}
    (h : literalOpened? t = some (d, frames)) : opened? t = some (d, frames) := by
  simp only [literalOpened?, Option.bind_eq_bind, Option.bind_eq_some_iff] at h
  obtain ⟨⟨d', lexed, events⟩, hliteral, hopen⟩ := h
  obtain ⟨-, u, hprolog, hlex, hevents⟩ := eq_of_literal? hliteral
  rw [opened?, hprolog]
  simp only [Option.bind_eq_bind, Option.bind_some, hlex, hevents]
  exact hopen

end MailMerge.Xml
