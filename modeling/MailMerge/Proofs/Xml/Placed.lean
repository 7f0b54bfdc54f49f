import MailMerge.Proofs.Text.Cut
import MailMerge.Proofs.Xml.Exchanged
import MailMerge.Proofs.Xml.Sound

/-!
# Elements in the text of a document

A tag has its place in the text of a document: behind the prolog, or behind the start of the document in an
element that is open. What follows a start tag is read by itself. A root that is one tag is the same as a root with
a start tag and an end tag, and if the slash of the one tag is left out, with the spaces before it, that is the
start tag.

**`StartsAt.leaves`**: after its start tag an element is open, and anything may follow.

**`StartsAt.exists_opened`, `parse?_empty`**: the one tag of a root may be replaced by two.
-/

namespace MailMerge.Xml

variable {before inside after label t u : Text} {d : Doctype} {f : Frame} {frames : List Frame}
  {given : List (Text × List Piece)}

/-! ## Line ends -/

theorem getLast?_withNewlines (t : Text) :
    (withNewlines t).getLast? = t.getLast?.map fun c => if c = '\r' then '\n' else c := by
  fun_induction withNewlines t with
  | case1 => rfl
  | case2 t ih => cases t <;> simp_all [List.getLast?_cons]
  | case3 c t hne ih => cases t <;> simp_all [List.getLast?_cons]

theorem exists_withNewlines_cons (c : Char) (t : Text) :
    ∃ u, withNewlines (c :: t) = (if c = '\r' then '\n' else c) :: u := by
  by_cases h : c ≠ '\r' ∨ t.head? ≠ some '\n'
  · exact ⟨_, withNewlines_cons h⟩
  · obtain ⟨hc, ht⟩ := not_or.1 h
    obtain ⟨v, rfl⟩ := List.head?_eq_some_iff.1 (not_not.1 ht)
    exact ⟨withNewlines v, by rw [not_not.1 hc, withNewlines]; rfl⟩

/-- What is read before and after a place stands before and after a place of the text. -/
theorem exists_of_withNewlines_eq_append {s : Text} (h : withNewlines t = s ++ u) :
    ∃ a b, t = a ++ b ∧ withNewlines a = s ∧ withNewlines b = u := by
  fun_induction withNewlines t generalizing s with
  | case1 =>
    obtain ⟨rfl, rfl⟩ := List.append_eq_nil_iff.1 h.symm
    exact ⟨[], [], rfl, rfl, rfl⟩
  | case2 t ih =>
    cases s with
    | nil => exact ⟨[], _, rfl, rfl, by rw [withNewlines]; exact h⟩
    | cons x s =>
      obtain ⟨rfl, hrest⟩ := List.cons.inj h
      obtain ⟨a, b, rfl, rfl, rfl⟩ := ih hrest
      exact ⟨'\r' :: '\n' :: a, b, rfl, by rw [withNewlines], rfl⟩
  | case3 c t hne ih =>
    have hc : c ≠ '\r' ∨ t.head? ≠ some '\n' := by
      by_contra hn
      obtain ⟨hc, ht⟩ := not_or.1 hn
      obtain ⟨v, rfl⟩ := List.head?_eq_some_iff.1 (not_not.1 ht)
      exact hne v (not_not.1 hc) rfl
    cases s with
    | nil => exact ⟨[], _, rfl, rfl, by rw [withNewlines_cons hc]; exact h⟩
    | cons x s =>
      obtain ⟨rfl, hrest⟩ := List.cons.inj h
      obtain ⟨a, b, rfl, rfl, rfl⟩ := ih hrest
      refine ⟨c :: a, b, rfl, withNewlines_cons (hc.imp_right fun hne he => hne ?_), rfl⟩
      rw [List.head?_append, he, Option.some_or]

/-! ## The start tag of an empty tag -/

theorem isBlank_of_isSpace {c : Char} (h : isSpace c) : Text.isBlank c := by
  simp only [isSpace, Bool.or_eq_true, beq_iff_eq] at h
  rcases h with ((rfl | rfl) | rfl) | rfl <;> decide

/-- A tag that closes its element ends with spaces and a slash, and is a start tag without them. -/
theorem exists_of_startTag?_empty (h : startTag? t = some ([.start label given, .stop label], [])) :
    isQualifiedName label ∧ ∃ s spaces, t = label ++ (s ++ spaces ++ ['/', '>']) ∧ (∀ c ∈ spaces, isSpace c) ∧
      (∀ c ∈ s.getLast?, c = '"' ∨ c = '\'') ∧
      startTag? (label ++ (s ++ ['>'])) = some ([.start label given], []) := by
  simp only [startTag?, Option.bind_eq_bind, Option.bind_eq_some_iff, Option.pure_def, Option.some.injEq,
    Prod.mk.injEq] at h
  obtain ⟨⟨name, rest⟩, hname, ⟨as, closed, after⟩, has, htokens, rfl⟩ := h
  cases closed with
  | false => simp at htokens
  | true =>
    obtain ⟨rfl, rfl⟩ : name = label ∧ as = given := by
      have := (List.cons.inj htokens).1
      simpa using this
    obtain ⟨hqualified, rfl, hhead⟩ := of_takeName? hname
    obtain ⟨s, spaces, rfl, hspaces, hlast, hread⟩ := reads_attributes? has
    refine ⟨hqualified, s, spaces, by simp [tagEnd], hspaces, hlast, ?_⟩
    have hnext : ∀ c ∈ (s ++ ['>']).head?, ¬ isQualifiedChar c := by
      cases s with
      | nil =>
        intro c hc
        obtain rfl := Option.some.inj hc
        decide
      | cons x s => exact hhead
    have hopened := hread [] false [] (List.forall_mem_nil _)
    rw [List.append_nil, List.append_nil, tagEnd, if_neg Bool.false_ne_true] at hopened
    simp only [startTag?, takeName?_of_isQualifiedName hqualified hnext, Option.bind_eq_bind, Option.bind_some,
      hopened]
    rfl

/-! ## Tags in their places -/

/-- Before the tag with the label stands the prolog, or the start of a document in which elements are open. -/
inductive Precedes (before label : Text) (d : Doctype) : List Frame → Prop
  | prolog : prolog? (normalized (before ++ '<' :: label)) = some (d, '<' :: label) → Precedes before label d []
  | inside {f : Frame} {frames : List Frame} :
      opened? before = some (d, f :: frames) → Precedes before label d (f.settle :: frames)

/-- After `before`, the label and `inside` between angle brackets are a tag that begins the element; the tag closes
its element too if it is an empty one. -/
structure StartsAt (before inside : Text) (empty : Bool) (d : Doctype) (f : Frame) (frames : List Frame) : Prop where
  precedes : Precedes before f.label d frames
  starts : ∃ given attributes,
    startTag? (f.label ++ withNewlines inside ++ ['>']) =
      some (.start f.label given :: if empty then [.stop f.label] else [], []) ∧
    Event.attributes? d d.entities f.label given = some attributes ∧
    Frame.enter? ((frames.head?.map (·.scope)).getD Scope.initial) f.label attributes = some f

theorem openAfter?_append {frames opened : List Frame} {xs : List Event} (h : openAfter? frames xs = some opened)
    (ys : List Event) : openAfter? frames (xs ++ ys) = openAfter? opened ys := by
  fun_induction openAfter? frames xs with
  | case1 frames =>
    obtain rfl := Option.some.inj h
    rfl
  | case2 frames label attributes events scope ih =>
    obtain ⟨f, hf, h⟩ := Option.bind_eq_some_iff.1 h
    rw [List.cons_append, openAfter?, hf]
    exact ih f h
  | case3 events f frames c ih =>
    rw [List.cons_append, openAfter?]
    exact ih h
  | case4 => cases h
  | case5 events f g frames label hlabel ih =>
    rw [List.cons_append, openAfter?, if_neg hlabel]
    exact ih h
  | case6 => cases h

theorem ofTokens?_start {es : Entities} {attributes : List (Text × Text)}
    (h : Event.attributes? d es label given = some attributes) :
    Event.ofTokens? d es [.start label given] = some [.start label attributes] := by
  rw [Event.ofTokens?, h, Event.ofTokens?]
  rfl

theorem openAfter?_start {attributes : List (Text × Text)}
    (h : Frame.enter? ((frames.head?.map (·.scope)).getD Scope.initial) label attributes = some f) :
    openAfter? frames [.start label attributes] = some (f :: frames.modifyHead Frame.settle) := by
  rw [openAfter?, h]
  rfl

/-- What follows a prolog is read by itself. -/
theorem parse?_of_prolog (hprolog : prolog? (normalized (before ++ '<' :: label)) = some (d, '<' :: label))
    (hlabel : BeginsElement ('<' :: label)) (hreturn : '\r' ∉ label) (t : Text) :
    parse? (before ++ '<' :: label ++ t) = (lex 0 (withNewlines ('<' :: label ++ t))).bind (Lexed.element? d) := by
  have hlast : (before ++ '<' :: label).getLast? ≠ some '\r' := Enclosed.getLast?_append_tag hreturn before
  rw [parse?_eq, normalized_append (by simp) (.inl hlast), prolog?_append hprolog hlabel,
    withNewlines_append_left (by simp [hreturn])]
  rfl

namespace StartsAt

variable {empty : Bool}

theorem isQualifiedName (h : StartsAt before inside empty d f frames) : isQualifiedName f.label := by
  obtain ⟨given, -, hstart, -⟩ := h.starts
  exact (startTag?_sound hstart _ List.mem_cons_self).1

/-- What is in scope in the element is sound. -/
theorem isSound (h : StartsAt before inside empty d f frames) (hd : d.rules = []) : f.IsSound := by
  obtain ⟨given, attributes, hstart, hattributes, hf⟩ := h.starts
  have hgiven := startTag?_sound hstart _ List.mem_cons_self
  have hwritable := attributes?_sound_of_rules hd hgiven.2 hattributes
  cases h.precedes with
  | prolog => exact Frame.isSound_of_enter? Scope.isSound_initial hgiven.1 hwritable hf
  | @inside g frames hopened =>
    have hg := (opened?_sound hopened hd g List.mem_cons_self).settle
    exact Frame.isSound_of_enter? hg.scope hgiven.1 hwritable hf

theorem name_eq (h : StartsAt before inside empty d f frames) {base : Text} (hlabel : f.label = label ++ ':' :: base)
    (hcolon : ':' ∉ label) : f.scope.lookup label = some f.name.space ∧ f.name.base = base := by
  obtain ⟨given, attributes, -, -, hf⟩ := h.starts
  exact name_of_enter? hcolon (hlabel ▸ hf)

/-- Nothing is in the element yet. -/
theorem empty_frame (h : StartsAt before inside empty d f frames) :
    f.text = [] ∧ f.children = [] ∧ f.pending = [] := by
  obtain ⟨given, attributes, -, -, hf⟩ := h.starts
  exact empty_of_enter? hf

/-- What follows the label of a tag is no character of a word. -/
theorem any_isWordChar (h : StartsAt before inside empty d f frames) :
    inside.head?.any Text.isWordChar = false := by
  obtain ⟨given, attributes, hstart, -⟩ := h.starts
  simp only [startTag?, Option.bind_eq_bind, Option.bind_eq_some_iff, Option.pure_def, Option.some.injEq,
    Prod.mk.injEq] at hstart
  obtain ⟨⟨name, rest⟩, hname, ⟨as, closed, after⟩, has, htokens, -⟩ := hstart
  obtain rfl : name = f.label := (Token.start.inj (List.cons.inj htokens).1).1
  have hrest : rest = withNewlines inside ++ ['>'] := by
    have := (of_takeName? hname).2.1
    rw [List.append_assoc] at this
    exact (List.append_cancel_left this).symm
  subst hrest
  cases inside with
  | nil => rfl
  | cons c v =>
    obtain ⟨w, hw⟩ := exists_withNewlines_cons c v
    dsimp only at has
    rw [hw] at has
    have hfirst := isSpace_of_attributes? has
    show Text.isWordChar c = false
    split at hfirst
    · next hreturn =>
      rw [hreturn]
      decide
    · simp only [isSpace, Bool.or_eq_true, beq_iff_eq] at hfirst
      rcases hfirst with (((rfl | rfl) | rfl) | rfl) | rfl | rfl <;> decide

/-- The tag is the first one of the text that begins with it, with newlines as line ends. -/
theorem next?_eq (h : StartsAt before inside empty d f frames) : ∃ given attributes,
    Event.attributes? d d.entities f.label given = some attributes ∧
    Frame.enter? ((frames.head?.map (·.scope)).getD Scope.initial) f.label attributes = some f ∧
    ∀ u, next? (withNewlines ('<' :: f.label ++ (inside ++ ['>'] ++ u))) =
      some (.start f.label given :: if empty then [.stop f.label] else [], withNewlines u) := by
  obtain ⟨given, attributes, hstart, hattributes, hf⟩ := h.starts
  refine ⟨given, attributes, hattributes, hf, fun u => ?_⟩
  have hreturn := return_not_mem_of_isQualifiedName h.isQualifiedName
  obtain ⟨c, v, hlabel, hc⟩ := exists_cons_of_isQualifiedName h.isQualifiedName
  have hlines : withNewlines ('<' :: f.label ++ (inside ++ ['>'] ++ u)) =
      '<' :: (f.label ++ withNewlines inside ++ ['>'] ++ withNewlines u) := by
    rw [withNewlines_append_left (by simp [hreturn]), List.append_assoc, withNewlines_append inside (by simp),
      withNewlines_append_of (.inl (by simp))]
    simp [withNewlines]
  have hmarkup : markup? (f.label ++ withNewlines inside ++ ['>']) =
      some (.start f.label given :: if empty then [.stop f.label] else [], []) := by
    rw [← hstart, hlabel]
    exact markup?_of_isNameStart hc _
  rw [hlines]
  exact markup?_append hmarkup _

theorem lex_eq (h : StartsAt before inside false d f frames) : ∃ given attributes,
    Event.ofTokens? d d.entities [.start f.label given] = some [.start f.label attributes] ∧
    Frame.enter? ((frames.head?.map (·.scope)).getD Scope.initial) f.label attributes = some f ∧
    ∀ depth u, lex depth (withNewlines ('<' :: f.label ++ (inside ++ ['>'] ++ u))) =
      (lex (depth + 1) (withNewlines u)).map (Lexed.prepend [.start f.label given]) := by
  obtain ⟨given, attributes, hattributes, hf, hnext⟩ := h.next?_eq
  exact ⟨given, attributes, ofTokens?_start hattributes, hf, fun depth u => lex_of_next? (hnext u) rfl⟩

/-- **After its start tag an element is open, and anything may follow.** -/
theorem leaves (h : StartsAt before inside false d f frames) (hlabel : BeginsElement ('<' :: f.label)) :
    Leaves (before ++ '<' :: f.label ++ (inside ++ ['>'])) d (f :: frames) fun _ => True := by
  obtain ⟨given, attributes, hevents, hf, hlex⟩ := h.lex_eq
  have hreturn := return_not_mem_of_isQualifiedName h.isQualifiedName
  cases h.precedes with
  | prolog hprolog =>
    refine ⟨0, [.start f.label given], [.start f.label attributes], hevents, openAfter?_start hf, fun u _ => ?_⟩
    rw [List.append_assoc, parse?_of_prolog hprolog hlabel hreturn, hlex, Option.bind_map]
    rfl
  | @inside g frames hopened =>
    obtain ⟨depth, tokens, events, htokens, hleft, hparse⟩ := leaves_of_opened hopened
    refine ⟨depth + 1, tokens ++ [.start f.label given], events ++ [.start f.label attributes],
      Event.ofTokens?_append htokens hevents, ?_, fun u _ => ?_⟩
    · rw [openAfter?_append hleft]
      refine openAfter?_start ?_
      rw [← hf]
      exact congrArg (Frame.enter? · f.label attributes) g.settle_label.2.symm
    · rw [List.append_assoc, List.append_assoc, hparse _ rfl, hlex, Option.bind_map]
      congr 1
      funext l
      exact congrArg (Lexed.element? d) (Lexed.prepend_prepend ..)

end StartsAt

/-! ## Roots that are empty -/

/-- A start tag and the end tag that follows it are an element without content. -/
theorem element?_start_stop {attributes : List (Text × Text)} {rest : Text}
    (hattributes : Event.attributes? d d.entities f.label given = some attributes)
    (hf : Frame.enter? Scope.initial f.label attributes = some f) :
    Lexed.element? d ⟨[.start f.label given, .stop f.label], 0, rest⟩ =
      if skipMisc rest = [] then some f.element else none := by
  have hevents : Event.ofTokens? d d.entities [.start f.label given, .stop f.label] =
      some [.start f.label attributes, .stop f.label] := by
    rw [Event.ofTokens?, hattributes, Event.ofTokens?, Event.ofTokens?]
    rfl
  unfold Lexed.element?
  dsimp only
  rw [hevents]
  by_cases hrest : skipMisc rest = []
  · rw [if_pos ⟨rfl, hrest⟩, if_pos hrest]
    exact build?_element hf .nil
  · rw [if_neg fun h => hrest h.2, if_neg hrest]

namespace StartsAt

theorem parse?_empty (h : StartsAt before inside true d f []) (hlabel : BeginsElement ('<' :: f.label))
    (after : Text) : parse? (before ++ '<' :: f.label ++ (inside ++ ['>']) ++ after) =
      if skipMisc (withNewlines after) = [] then some f.element else none := by
  obtain ⟨given, attributes, hattributes, hf, hnext⟩ := h.next?_eq
  cases h.precedes with
  | prolog hprolog =>
    rw [List.append_assoc, parse?_of_prolog hprolog hlabel (return_not_mem_of_isQualifiedName h.isQualifiedName),
      lex_of_closed (hnext after) rfl]
    exact element?_start_stop hattributes hf

theorem parse?_opened (h : StartsAt before inside false d f []) (hlabel : BeginsElement ('<' :: f.label))
    (after : Text) :
    parse? (before ++ '<' :: f.label ++ (inside ++ ['>']) ++ ('<' :: ('/' :: f.label ++ ['>']) ++ after)) =
      if skipMisc (withNewlines after) = [] then some f.element else none := by
  obtain ⟨given, attributes, hattributes, hf, hnext⟩ := h.next?_eq
  have hreturn := return_not_mem_of_isQualifiedName h.isQualifiedName
  have hstop : next? (withNewlines ('<' :: ('/' :: f.label ++ ['>']) ++ after)) =
      some ([.stop f.label], withNewlines after) := by
    rw [withNewlines_append_left (by simp [hreturn])]
    exact markup?_append (markup?_closing h.isQualifiedName) _
  cases h.precedes with
  | prolog hprolog =>
    rw [List.append_assoc, parse?_of_prolog hprolog hlabel hreturn, lex_of_next? (hnext _) rfl,
      lex_of_closed hstop rfl]
    exact element?_start_stop hattributes hf

/-- **If the slash of an empty tag is left out, with the spaces before it, the tag is a start tag.** -/
theorem exists_opened (h : StartsAt before inside true d f frames) (hslash : inside.getLast? = some '/') :
    ∃ inside', Text.trimEnd ('<' :: f.label ++ inside.dropLast) = '<' :: f.label ++ inside' ∧
      StartsAt before inside' false d f frames := by
  obtain ⟨given, attributes, hstart, hattributes, hf⟩ := h.starts
  obtain ⟨hname, s, spaces, htag, hspaces, hlast, hopened⟩ := exists_of_startTag?_empty hstart
  obtain ⟨t, rfl⟩ : ∃ t, inside = t ++ ['/'] := by
    obtain ⟨t, rfl⟩ := List.getLast?_eq_some_iff.1 hslash
    exact ⟨t, rfl⟩
  have hlines : withNewlines t = s ++ spaces := by
    rw [withNewlines_append t (by simp)] at htag
    have : f.label ++ (withNewlines t ++ ['/', '>']) = f.label ++ (s ++ spaces ++ ['/', '>']) := by
      simpa [withNewlines] using htag
    exact List.append_cancel_right (List.append_cancel_left this)
  obtain ⟨inside', b, rfl, rfl, rfl⟩ := exists_of_withNewlines_eq_append hlines
  refine ⟨inside', ?_, h.precedes, given, attributes, ?_, hattributes, hf⟩
  · have hblank : ∀ c ∈ b, Text.isBlank c := by
      intro c hc
      by_cases hreturn : c = '\r'
      · rw [hreturn]
        decide
      · exact isBlank_of_isSpace (hspaces c (mem_withNewlines_of_mem hc hreturn))
    rw [List.dropLast_concat, ← List.append_assoc, Text.trimEnd_blanks _ hblank]
    refine Text.trimEnd_eq_self fun c hc => ?_
    rw [getLast?_withNewlines] at hlast
    cases hinside : inside'.getLast? with
    | none =>
      rw [List.getLast?_eq_none_iff.1 hinside, List.append_nil] at hc
      rcases List.mem_cons.1 (List.mem_of_getLast? hc) with rfl | hc
      · decide
      · exact eq_false_of_ne_true (not_isBlank_of_isQualifiedName hname c hc)
    | some x =>
      rw [List.getLast?_append, hinside, Option.some_or, Option.mem_some_iff] at hc
      subst hc
      have hquote := hlast _ (by rw [hinside, Option.map_some, Option.mem_some_iff])
      split at hquote
      · exact absurd hquote (by decide)
      · rcases hquote with rfl | rfl <;> decide
  · rw [List.append_assoc, hopened]
    rfl

end StartsAt
end MailMerge.Xml
