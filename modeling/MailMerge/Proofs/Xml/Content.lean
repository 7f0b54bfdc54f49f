import MailMerge.Proofs.Xml.Extended
import MailMerge.Xml.Writing
import Mathlib.Tactic.SplitIfs

/-!
# Content of an element

Content is a text that is read the same way in every element where the same labels are bound: with
newlines as line ends it is cut into tokens, these are events, and the events add characters and elements
to the element that is open. A tag has to follow it.

**Laws of content.** Contents in sequence are content (`Content.append`), an escaped text is content if its
characters are legal (`Content.escape`), and so is an element around content (`Enclosed.element`). After an
element no tag has to follow (`Enclosed.append`).
-/

namespace MailMerge.Xml

/-! ## Line ends -/

theorem withNewlines_cons {c : Char} {t : Text} (h : c ≠ '\r' ∨ t.head? ≠ some '\n') :
    withNewlines (c :: t) = (if c = '\r' then '\n' else c) :: withNewlines t := by
  rw [withNewlines]
  rintro v rfl rfl
  exact h.elim (fun h => h rfl) fun h => h rfl

/-- Line ends are changed on both sides of a place that is not inside of one. -/
theorem withNewlines_append_of {s t : Text} (h : s.getLast? ≠ some '\r' ∨ t.head? ≠ some '\n') :
    withNewlines (s ++ t) = withNewlines s ++ withNewlines t := by
  fun_induction withNewlines s with
  | case1 => rfl
  | case2 s ih =>
    rw [List.cons_append, List.cons_append, withNewlines, ih (h.imp_left fun hs he => ?_), List.cons_append]
    exact hs (by simp [List.getLast?_cons, he])
  | case3 c s hne ih =>
    have hc : c ≠ '\r' ∨ (s ++ t).head? ≠ some '\n' := by
      by_cases hc : c = '\r'
      · cases s with
        | nil => exact h.imp_left fun hs => absurd (congrArg some hc) hs
        | cons d s =>
          refine .inr fun hd => hne s hc ?_
          rw [Option.some.inj hd]
      · exact .inl hc
    rw [List.cons_append, withNewlines_cons hc, ih (h.imp_left fun hs he => ?_), List.cons_append]
    exact hs (by simp [List.getLast?_cons, he])

theorem withNewlines_append (s : Text) {t : Text} (ht : t.head? ≠ some '\n') :
    withNewlines (s ++ t) = withNewlines s ++ withNewlines t :=
  withNewlines_append_of (.inr ht)

theorem withNewlines_of_not_mem {t : Text} (h : '\r' ∉ t) : withNewlines t = t := by
  induction t with
  | nil => rfl
  | cons c t ih =>
    have hc : c ≠ '\r' := fun he => h (he ▸ List.mem_cons_self)
    rw [withNewlines_cons (.inl hc), if_neg hc, ih fun ht => h (List.mem_cons_of_mem c ht)]

/-- Nothing changes before the first carriage return. -/
theorem withNewlines_append_left {s : Text} (h : '\r' ∉ s) (t : Text) :
    withNewlines (s ++ t) = s ++ withNewlines t := by
  induction s with
  | nil => rfl
  | cons c s ih =>
    have hc : c ≠ '\r' := fun he => h (he ▸ List.mem_cons_self)
    rw [List.cons_append, withNewlines_cons (.inl hc), if_neg hc,
      ih fun hs => h (List.mem_cons_of_mem c hs), List.cons_append]

theorem mem_withNewlines {c : Char} {t : Text} (h : c ∈ withNewlines t) : c ∈ t ∨ c = '\n' := by
  fun_induction withNewlines t with
  | case1 => exact .inl h
  | case2 t ih => grind
  | case3 d t hne ih => grind

/-- A character that is no line end stays where line ends are changed. -/
theorem mem_withNewlines_of_mem {c : Char} {t : Text} (hc : c ∈ t) (hreturn : c ≠ '\r') : c ∈ withNewlines t := by
  fun_induction withNewlines t with
  | case1 => exact hc
  | case2 t ih => grind
  | case3 d t hne ih => grind

/-- What stands in an element: a character or an element. -/
inductive Item where
  | char (c : Char)
  | element (e : Element)

namespace Frame

/-- The open element with one more item in it. -/
def add (f : Frame) : Item → Frame
  | .char c => { f with pending := c :: f.pending }
  | .element e => { f.settle with children := e :: f.settle.children }

/-- The open element with more items in it. -/
def addAll (f : Frame) (items : List Item) : Frame :=
  items.foldl add f

theorem settle_label (f : Frame) : f.settle.label = f.label ∧ f.settle.scope = f.scope := by
  unfold settle
  split
  · exact ⟨rfl, rfl⟩
  · exact ⟨rfl, rfl⟩

theorem add_label (f : Frame) (item : Item) :
    (f.add item).label = f.label ∧ (f.add item).scope = f.scope := by
  cases item with
  | char c => exact ⟨rfl, rfl⟩
  | element e => exact f.settle_label

/-- Items change neither the label of the element nor what is in scope in it. -/
theorem addAll_label (f : Frame) (items : List Item) :
    (f.addAll items).label = f.label ∧ (f.addAll items).scope = f.scope := by
  induction items generalizing f with
  | nil => exact ⟨rfl, rfl⟩
  | cons item items ih =>
    obtain ⟨hl, hs⟩ := ih (f.add item)
    obtain ⟨hl', hs'⟩ := f.add_label item
    exact ⟨hl.trans hl', hs.trans hs'⟩

/-- An element is opened with its label, and the scope that its attributes make. -/
theorem label_of_enter? {scope : Scope} {label : Text} {attributes : List (Text × Text)} {f : Frame}
    (h : enter? scope label attributes = some f) :
    f.label = label ∧ scope.enter? attributes = some f.scope := by
  unfold enter? at h
  split at h
  · simp only [Option.bind_eq_bind, Option.bind_eq_some_iff, Option.pure_def, Option.some.injEq] at h
    obtain ⟨inner, hinner, name, -, named, -, rfl⟩ := h
    exact ⟨rfl, hinner⟩
  · cases h

theorem addAll_append (f : Frame) (items more : List Item) :
    f.addAll (items ++ more) = (f.addAll items).addAll more :=
  List.foldl_append

theorem settle_of_pending {f : Frame} (hpending : f.pending = []) (htext : f.text = [])
    (htails : ∀ e ∈ f.children, e.tail = []) : f.settle = f := by
  obtain ⟨label, scope, name, attributes, text, children, pending⟩ := f
  cases hpending
  cases htext
  cases children with
  | nil => rfl
  | cons e es =>
    obtain ⟨name, attributes, text, children, tail⟩ := e
    have htail : tail = [] := htails _ List.mem_cons_self
    rw [htail]
    rfl

theorem addAll_elements {f : Frame} {es : List Element} (hpending : f.pending = []) (htext : f.text = [])
    (hchildren : ∀ e ∈ f.children, e.tail = []) (htails : ∀ e ∈ es, e.tail = []) :
    f.addAll (es.map .element) = { f with children := es.reverse ++ f.children } := by
  induction es generalizing f with
  | nil => rfl
  | cons e es ih =>
    have hadd : f.add (.element e) = { f with children := e :: f.children } := by
      rw [add, settle_of_pending hpending htext hchildren]
    have hall : ∀ x ∈ e :: f.children, x.tail = [] := by
      intro x hx
      rcases List.mem_cons.1 hx with rfl | hx
      · exact htails x List.mem_cons_self
      · exact hchildren x hx
    have hrest := @ih (f.add (.element e)) (by rw [hadd]; exact hpending) (by rw [hadd]; exact htext)
      (by rw [hadd]; exact hall) fun x hx => htails x (List.mem_cons_of_mem e hx)
    rw [List.map_cons, addAll, List.foldl_cons]
    rw [addAll, hadd] at hrest
    rw [hadd, hrest, List.reverse_cons, List.append_assoc, List.singleton_append]

/-- An element around elements has these as its children. -/
theorem element_addAll {f : Frame} {es : List Element} (hpending : f.pending = []) (htext : f.text = [])
    (hchildren : f.children = []) (htails : ∀ e ∈ es, e.tail = []) :
    (f.addAll (es.map .element)).element = .mk f.name f.attributes [] es [] := by
  have hnone : ∀ e ∈ f.children, e.tail = [] := by simp [hchildren]
  rw [addAll_elements hpending htext hnone htails, element, settle_of_pending]
  · simp [hchildren, htext]
  · exact hpending
  · exact htext
  · simpa [hchildren] using htails

theorem addAll_chars (f : Frame) (t : Text) :
    f.addAll (t.map .char) = { f with pending := t.reverse ++ f.pending } := by
  induction t generalizing f with
  | nil => rfl
  | cons c t ih =>
    have hrest := ih (f.add (.char c))
    rw [List.map_cons, addAll, List.foldl_cons]
    rw [addAll] at hrest
    rw [hrest, List.reverse_cons, List.append_assoc]
    rfl

/-- An element around characters has these as its text. -/
theorem element_addAll_chars {f : Frame} (hpending : f.pending = []) (hchildren : f.children = [])
    (t : Text) : (f.addAll (t.map .char)).element = .mk f.name f.attributes t [] [] := by
  rw [addAll_chars, element, settle, hchildren]
  simp [hpending]

end Frame

/-! ## Tokens -/

/-- In whatever element the text stands, it is cut into the tokens, if a tag follows it. -/
def Lexes (t : Text) (tokens : List Token) : Prop :=
  ∀ depth u, u.head? = some '<' →
    lex (depth + 1) (t ++ u) = (lex (depth + 1) u).map (Lexed.prepend tokens)

/-- The same, whatever follows the text. -/
def LexesWhole (t : Text) (tokens : List Token) : Prop :=
  ∀ depth u, lex (depth + 1) (t ++ u) = (lex (depth + 1) u).map (Lexed.prepend tokens)

/-- The text begins with a tag, if there is any. -/
def Tagged (t : Text) : Prop :=
  t = [] ∨ t.head? = some '<'

theorem Tagged.head?_append {t u : Text} (h : Tagged t) (hu : u.head? = some '<') :
    (t ++ u).head? = some '<' := by
  rcases h with rfl | h
  · exact hu
  · rw [List.head?_append, h]
    rfl

theorem Tagged.append {s t : Text} (hs : Tagged s) (ht : Tagged t) : Tagged (s ++ t) := by
  rcases ht with rfl | ht
  · rwa [List.append_nil]
  · exact .inr (hs.head?_append ht)

theorem Tagged.head?_ne {t : Text} (h : Tagged t) : t.head? ≠ some '\n' := by
  rcases h with rfl | h
  · simp
  · simp [h]

theorem Tagged.withNewlines {t : Text} (h : Tagged t) : Tagged (withNewlines t) := by
  rcases h with rfl | h
  · exact .inl rfl
  · obtain ⟨u, rfl⟩ := List.head?_eq_some_iff.1 h
    exact .inr (by simp [withNewlines_cons])

namespace Lexes

theorem nil : Lexes [] [] := fun depth u _ => by
  rw [List.nil_append]
  exact (Option.map_id').symm

theorem append {s t : Text} {ss ts : List Token} (hs : Lexes s ss) (ht : Lexes t ts)
    (htag : Tagged t) : Lexes (s ++ t) (ss ++ ts) := by
  intro depth u hu
  rw [List.append_assoc, hs depth _ (htag.head?_append hu), ht depth u hu, Option.map_map]
  congr 1
  funext l
  exact Lexed.prepend_prepend ss ts l

end Lexes

namespace LexesWhole

theorem lexes {t : Text} {tokens : List Token} (h : LexesWhole t tokens) : Lexes t tokens :=
  fun depth u _ => h depth u

theorem append {s t : Text} {ss ts : List Token} (hs : LexesWhole s ss) (ht : Lexes t ts) :
    Lexes (s ++ t) (ss ++ ts) := by
  intro depth u hu
  rw [List.append_assoc, hs depth, ht depth u hu, Option.map_map]
  congr 1
  funext l
  exact Lexed.prepend_prepend ss ts l

/-- An element around content: a start tag, the content and an end tag. -/
theorem element {opened closing t : Text} {label : Text} {given : List (Text × List Piece)}
    {ts : List Token} (hopened : markup? opened = some ([.start label given], []))
    (hclosing : markup? closing = some ([.stop label], [])) (ht : Lexes t ts) :
    LexesWhole ('<' :: opened ++ t ++ '<' :: closing) (.start label given :: ts ++ [.stop label]) := by
  intro depth u
  have hstart : next? ('<' :: opened ++ t ++ '<' :: closing ++ u) =
      some ([.start label given], t ++ ('<' :: closing ++ u)) := by
    have := markup?_append hopened (t ++ ('<' :: closing ++ u))
    simpa [next?] using this
  have hstop : next? ('<' :: closing ++ u) = some ([.stop label], u) := markup?_append hclosing u
  rw [lex_of_next? hstart rfl, ht (depth + 1) _ rfl, lex_of_next? hstop rfl, Option.map_map, Option.map_map]
  congr 1
  funext l
  simp [Lexed.prepend]

/-- An element without content: one tag. -/
theorem empty {opened : Text} {label : Text} {given : List (Text × List Piece)}
    (hopened : markup? opened = some ([.start label given, .stop label], [])) :
    LexesWhole ('<' :: opened) [.start label given, .stop label] := fun _ u =>
  lex_of_next? (markup?_append hopened u) rfl

end LexesWhole

/-! ## Escaped texts -/

theorem escape_cons (c : Char) (t : Text) : escape (c :: t) = escapeChar c ++ escape t := rfl

theorem head?_escape_append (t : Text) {u : Text} (hu : u.head? = some '<') :
    (escape t ++ u).head? ≠ some '>' := by
  cases t with
  | nil =>
    rw [escape, List.flatMap_nil, List.nil_append, hu]
    decide
  | cons c t =>
    rw [escape_cons, escapeChar]
    split_ifs with h₁ h₂ h₃
    · simp
    · simp
    · simp
    · simpa using h₃

/-- Line ends may be changed before or after a text is escaped. -/
theorem withNewlines_escape (t : Text) : withNewlines (escape t) = escape (withNewlines t) := by
  fun_induction withNewlines t with
  | case1 => rfl
  | case2 t ih =>
    rw [escape_cons, escape_cons, escape_cons, ← ih]
    rfl
  | case3 c t hne ih =>
    have hnext : c = '\r' → (escape t).head? ≠ some '\n' := by
      intro hc ht
      cases t with
      | nil => cases ht
      | cons d t =>
        refine hne t hc ?_
        rw [escape_cons, escapeChar] at ht
        split_ifs at ht <;> simp_all
    rw [escape_cons, escape_cons, ← ih]
    unfold escapeChar
    split_ifs with h₁ h₂ h₃ h₄ h₅ h₆ h₇ h₈ <;> simp_all [withNewlines_cons]

/-- A reference is read as the character that it stands for. -/
theorem next?_reference {t u : Text} {c : Char} (h : reference? t = some (.char c, [])) :
    next? ('&' :: t ++ u) = some ([.char c], u) := by
  rw [List.cons_append, next?, reference?_append h u]
  rfl

/-- A character is read as it was before it was escaped. -/
theorem next?_escapeChar {c : Char} (hc : isLegal c) {u : Text}
    (hu : ∀ v, u ≠ ']' :: '>' :: v) : next? (escapeChar c ++ u) = some ([.char c], u) := by
  unfold escapeChar
  split_ifs with h₁ h₂ h₃
  · rw [h₁]
    exact next?_reference (by decide)
  · rw [h₂]
    exact next?_reference (by decide)
  · rw [h₃]
    exact next?_reference (by decide)
  · exact next?_char hc h₂ h₁ fun _ v hv => hu v hv

/-- No section of plain characters ends in an escaped text. -/
theorem escape_append_ne (t : Text) {u : Text} (hu : u.head? = some '<') (v : Text) :
    escape t ++ u ≠ ']' :: '>' :: v := by
  intro he
  cases t with
  | nil =>
    rw [escape, List.flatMap_nil, List.nil_append] at he
    simp [he] at hu
  | cons c t =>
    have hnext := head?_escape_append t hu
    rw [escape_cons, List.append_assoc, escapeChar] at he
    split_ifs at he
    · exact absurd (List.cons.inj he).1 (by decide)
    · exact absurd (List.cons.inj he).1 (by decide)
    · exact absurd (List.cons.inj he).1 (by decide)
    · rw [List.singleton_append] at he
      rw [(List.cons.inj he).2] at hnext
      exact hnext rfl

/-- **An escaped text is read as the characters that it was made of.** -/
theorem lexes_escape {t : Text} (h : ∀ c ∈ t, isLegal c) : Lexes (escape t) (t.map .char) := by
  intro depth u hu
  induction t with
  | nil => exact Lexes.nil depth u hu
  | cons c t ih =>
    have hnext := next?_escapeChar (h c List.mem_cons_self) (escape_append_ne t hu)
    have ih := ih fun d hd => h d (List.mem_cons_of_mem c hd)
    rw [escape_cons, List.append_assoc, lex_of_next? hnext rfl, ih, Option.map_map]
    rfl

/-! ## Events -/

namespace Event

/-- The events of tokens are those of one token after the other. -/
theorem ofTokens?_cons (d : Doctype) (es : Entities) (t : Token) (ts : List Token) :
    ofTokens? d es (t :: ts) = do
      let first ← ofTokens? d es [t]
      let rest ← ofTokens? d es ts
      return first ++ rest := by
  cases t with
  | char c =>
    rw [ofTokens?, ofTokens?, ofTokens?]
    cases ofTokens? d es ts <;> rfl
  | stop name =>
    rw [ofTokens?, ofTokens?, ofTokens?]
    cases ofTokens? d es ts <;> rfl
  | start name given =>
    rw [ofTokens?, ofTokens?, ofTokens?]
    cases attributes? d es name given with
    | none => rfl
    | some attributes => cases ofTokens? d es ts <;> rfl
  | entity name =>
    rw [ofTokens?, ofTokens?]
    split
    · next body hbody =>
      split
      · next inner hlex =>
        cases ofTokens? d (es.close name) inner with
        | none => rfl
        | some events =>
          rw [ofTokens?]
          cases ofTokens? d es ts with
          | none => rfl
          | some more => simp
      · rfl
    · rfl

theorem ofTokens?_append_eq (d : Doctype) (es : Entities) (ss ts : List Token) :
    ofTokens? d es (ss ++ ts) = do
      let xs ← ofTokens? d es ss
      let ys ← ofTokens? d es ts
      return xs ++ ys := by
  induction ss with
  | nil => simp [ofTokens?]
  | cons s ss ih =>
    rw [List.cons_append, ofTokens?_cons, ofTokens?_cons d es s ss, ih]
    simp only [Option.bind_eq_bind, Option.bind_assoc, Option.pure_def, Option.bind_some,
      List.append_assoc]

theorem ofTokens?_append {d : Doctype} {es : Entities} {ss ts : List Token} {xs ys : List Event}
    (hs : ofTokens? d es ss = some xs) (ht : ofTokens? d es ts = some ys) :
    ofTokens? d es (ss ++ ts) = some (xs ++ ys) := by
  rw [ofTokens?_append_eq, hs, ht]
  rfl

theorem ofTokens?_chars (d : Doctype) (es : Entities) (t : Text) :
    ofTokens? d es (t.map .char) = some (t.map .char) := by
  induction t with
  | nil => rw [List.map_nil, ofTokens?, List.map_nil]
  | cons c t ih => rw [List.map_cons, ofTokens?, ih, List.map_cons, Option.map_some]

end Event

theorem expandPieces_chars (lenient : Bool) (es : Entities) (t : Text) :
    expandPieces lenient es (t.map .char) = some t := by
  induction t with
  | nil => rw [List.map_nil, expandPieces]
  | cons c t ih => rw [List.map_cons, expandPieces, ih, Option.map_some]

/-- Attributes in whose values nothing is left to be replaced. -/
def plainAttributes (attributes : List (Text × Text)) : List (Text × List Piece) :=
  attributes.map fun (name, value) => (name, value.map .char)

theorem attributes?_plain {d : Doctype} (hd : d.rules = []) (es : Entities) (label : Text)
    (attributes : List (Text × Text)) :
    Event.attributes? d es label (plainAttributes attributes) = some attributes := by
  have hdefaults : ∀ given, Event.defaultsOf d label given = [] := by
    intro given
    rw [Event.defaultsOf, hd, List.filterMap_nil]
  have hrule : ∀ name, d.rule? label name = none := by
    intro name
    rw [Doctype.rule?, hd, List.find?_nil]
  have hvalue : ∀ value : Text, d.valueOf? es false (value.map .char) = some value := by
    intro value
    simp [Doctype.valueOf?, expandPieces_chars]
  have hall : (plainAttributes attributes).mapM (fun a => do
      let isWords := (d.rule? label a.1).any (·.isWords)
      return (a.1, ← d.valueOf? es isWords a.2)) = some attributes := by
    unfold plainAttributes
    rw [List.mapM_map]
    induction attributes with
    | nil => rfl
    | cons a attributes ih =>
      rw [List.mapM_cons, ih]
      simp [hrule, hvalue]
  unfold Event.attributes?
  rw [hall]
  simp [hdefaults]

/-! ## Elements -/

/-- In an element with the scope, the events make the items. -/
def Builds (scope : Scope) (events : List Event) (items : List Item) : Prop :=
  ∀ (f : Frame) (frames : List Frame) (rest : List Event), f.scope = scope →
    build? (f :: frames) (events ++ rest) = build? (f.addAll items :: frames) rest

namespace Builds

variable {scope : Scope}

theorem nil : Builds scope [] [] := fun _ _ _ _ => rfl

theorem append {xs ys : List Event} {is js : List Item} (hx : Builds scope xs is)
    (hy : Builds scope ys js) : Builds scope (xs ++ ys) (is ++ js) := by
  intro f frames rest hf
  rw [List.append_assoc, hx f frames _ hf, hy _ frames rest ((f.addAll_label is).2.trans hf),
    Frame.addAll_append]

theorem chars (t : Text) : Builds scope (t.map .char) (t.map .char) := by
  induction t with
  | nil => exact nil
  | cons c t ih =>
    intro f frames rest hf
    exact ih _ frames rest hf

/-- An element that is opened in the scope is closed with the items inside. -/
theorem element {label : Text} {attributes : List (Text × Text)} {g : Frame} {events : List Event}
    {items : List Item} (hg : Frame.enter? scope label attributes = some g)
    (h : Builds g.scope events items) :
    Builds scope (.start label attributes :: events ++ [.stop label])
      [.element (g.addAll items).element] := by
  intro f frames rest hf
  have hlabel : (g.addAll items).label = label :=
    (g.addAll_label items).1.trans (Frame.label_of_enter? hg).1
  rw [List.append_assoc, List.cons_append, build?]
  simp only [List.head?_cons, Option.map_some, Option.getD_some, hf, hg, Option.bind_eq_bind,
    Option.bind_some, List.modifyHead_cons]
  rw [h g _ _ rfl, List.singleton_append, build?, if_neg (fun h => h hlabel.symm)]
  rfl

end Builds

/-! ## Content -/

/-- The text is read as the items in every element with the scope. -/
def Content (d : Doctype) (scope : Scope) (t : Text) (items : List Item) : Prop :=
  ∃ tokens events, Lexes (withNewlines t) tokens ∧
    Event.ofTokens? d d.entities tokens = some events ∧ Builds scope events items

namespace Content

variable {d : Doctype} {scope : Scope} {s t : Text} {is js : List Item}

theorem nil : Content d scope [] [] :=
  ⟨[], [], .nil, by rw [Event.ofTokens?], .nil⟩

theorem append (hs : Content d scope s is) (ht : Content d scope t js) (htag : Tagged t) :
    Content d scope (s ++ t) (is ++ js) := by
  obtain ⟨ss, xs, hss, hxs, hbs⟩ := hs
  obtain ⟨ts, ys, hts, hys, hbt⟩ := ht
  refine ⟨ss ++ ts, xs ++ ys, ?_, Event.ofTokens?_append hxs hys, hbs.append hbt⟩
  rw [withNewlines_append s htag.head?_ne]
  exact hss.append hts htag.withNewlines

/-- **A text between tags is content if its characters are legal.** -/
theorem escape (h : ∀ c ∈ t, isLegal c) :
    Content d scope (escape t) ((withNewlines t).map .char) := by
  have hlegal : ∀ c ∈ withNewlines t, isLegal c := fun c hc =>
    (mem_withNewlines hc).elim (h c) fun he => he ▸ by decide
  refine ⟨_, _, ?_, Event.ofTokens?_chars d d.entities _, .chars _⟩
  rw [withNewlines_escape]
  exact lexes_escape hlegal

end Content

/-- The text is read as the items, and ends with a tag, so that anything may follow it. -/
def Enclosed (d : Doctype) (scope : Scope) (t : Text) (items : List Item) : Prop :=
  t.getLast? ≠ some '\r' ∧ ∃ tokens events, LexesWhole (withNewlines t) tokens ∧
    Event.ofTokens? d d.entities tokens = some events ∧ Builds scope events items

namespace Enclosed

variable {d : Doctype} {scope : Scope} {s t : Text} {is js : List Item}

theorem content (h : Enclosed d scope t is) : Content d scope t is := by
  obtain ⟨-, tokens, events, htokens, hevents, hbuilds⟩ := h
  exact ⟨tokens, events, htokens.lexes, hevents, hbuilds⟩

theorem append (hs : Enclosed d scope s is) (ht : Content d scope t js) :
    Content d scope (s ++ t) (is ++ js) := by
  obtain ⟨hlast, ss, xs, hss, hxs, hbs⟩ := hs
  obtain ⟨ts, ys, hts, hys, hbt⟩ := ht
  refine ⟨ss ++ ts, xs ++ ys, ?_, Event.ofTokens?_append hxs hys, hbs.append hbt⟩
  rw [withNewlines_append_of (.inl hlast)]
  exact hss.append hts

variable {opened closing label : Text} {attributes : List (Text × Text)} {g : Frame}

theorem getLast?_append_tag {tag : Text} (h : '\r' ∉ tag) (t : Text) :
    (t ++ '<' :: tag).getLast? ≠ some '\r' := by
  rw [List.getLast?_append]
  intro he
  have hmem : '\r' ∈ '<' :: tag := List.mem_of_getLast? (by simpa using he)
  rcases List.mem_cons.1 hmem with he | hmem
  · cases he
  · exact h hmem

/-- **An element around content is content.** -/
theorem element (hd : d.rules = []) (hreturn : '\r' ∉ opened ∧ '\r' ∉ closing)
    (hopened : markup? opened = some ([.start label (plainAttributes attributes)], []))
    (hclosing : markup? closing = some ([.stop label], []))
    (hg : Frame.enter? scope label attributes = some g) (h : Content d g.scope t is) :
    Enclosed d scope ('<' :: opened ++ t ++ '<' :: closing) [.element (g.addAll is).element] := by
  obtain ⟨ts, xs, hts, hxs, hb⟩ := h
  refine ⟨getLast?_append_tag hreturn.2 _, .start label (plainAttributes attributes) :: ts ++ [.stop label],
    .start label attributes :: xs ++ [.stop label], ?_, ?_, .element hg hb⟩
  · have hends : withNewlines ('<' :: opened ++ t ++ '<' :: closing) =
        '<' :: opened ++ withNewlines t ++ '<' :: closing := by
      rw [List.append_assoc, withNewlines_append_left (by simpa using hreturn.1),
        withNewlines_append t (by simp), @withNewlines_of_not_mem ('<' :: closing)
        (by simpa using hreturn.2), List.append_assoc]
    rw [hends]
    exact .element hopened hclosing hts
  have hstop : Event.ofTokens? d d.entities [.stop label] = some [.stop label] := by
    rw [Event.ofTokens?, Event.ofTokens?, Option.map_some]
  rw [List.cons_append, Event.ofTokens?, attributes?_plain hd]
  dsimp only
  rw [Event.ofTokens?_append hxs hstop, Option.map_some, List.cons_append]

/-- An element that is one tag is content. -/
theorem empty (hd : d.rules = []) (hreturn : '\r' ∉ opened)
    (hopened : markup? opened =
      some ([.start label (plainAttributes attributes), .stop label], []))
    (hg : Frame.enter? scope label attributes = some g) :
    Enclosed d scope ('<' :: opened) [.element g.element] := by
  refine ⟨getLast?_append_tag hreturn [], [.start label (plainAttributes attributes), .stop label],
    [.start label attributes, .stop label], ?_, ?_, .element hg .nil⟩
  · rw [withNewlines_of_not_mem (by simpa using hreturn)]
    exact .empty hopened
  rw [Event.ofTokens?, attributes?_plain hd]
  dsimp only
  rw [Event.ofTokens?, Event.ofTokens?, Option.map_some, Option.map_some]

end Enclosed

end MailMerge.Xml
