import MailMerge.Proofs.Section.Strays
import MailMerge.Proofs.Text.Calm

/-!
# Texts of whole lines

A text may consist of lines with fields, and of sections whose two markers fill a line each. Such a
section takes the lines of its markers with it, and its body is the lines between them, each with its
newline.

**`isSymbols_symbols`**: the symbols of such a text are those of its lines, with the newlines between
them, and its sections.
-/

namespace MailMerge.Section

open Marker (Token tokens joinTokens charTokens ofInner classify locateTokens Sealed)

variable {t : Text} {ts us : List Token} {offset : Nat}

/-! ## Items -/

/-- A part of a text of whole lines: a line, or a section whose markers, given by the texts between
their braces, fill a line each. -/
inductive Item where
  | line (t : Text)
  | repeated (opener closer : Text) (body : List Item)

namespace Item

mutual

/-- The lines of the item. -/
def lines : Item → List Text
  | line t => [t]
  | repeated o k body => Marker.enclose o :: (linesOf body ++ [Marker.enclose k])

/-- The lines of items. -/
def linesOf : List Item → List Text
  | [] => []
  | i :: is => i.lines ++ linesOf is

end

/-- The text of items. -/
def textOf (is : List Item) : Text :=
  Text.unlines (linesOf is)

mutual

/-- The markers of the item's lines are fields but for the two of a section, and none of the lines goes
on behind a newline. -/
def Sound : Item → Prop
  | line t => '\n' ∉ t ∧ ∀ i ∈ inners t, (classify i).kind = .field
  | repeated o k body =>
    (Text.FreeOf Marker.closing o ∧ Text.FreeOf Marker.closing k) ∧ Ends o k ∧ AllSound body

/-- All items are sound. -/
def AllSound : List Item → Prop
  | [] => True
  | i :: is => i.Sound ∧ AllSound is

end

theorem lines_ne_nil (i : Item) : i.lines ≠ [] := by
  cases i <;> simp [lines]

theorem linesOf_append (is js : List Item) : linesOf (is ++ js) = linesOf is ++ linesOf js := by
  induction is with
  | nil => rfl
  | cons i is ih => rw [List.cons_append, linesOf, linesOf, ih, List.append_assoc]

theorem linesOf_eq_nil {is : List Item} (h : linesOf is = []) : is = [] := by
  cases is with
  | nil => rfl
  | cons i is => exact absurd (List.append_eq_nil_iff.1 h).1 i.lines_ne_nil

end Item

open Item

/-! ## Tokens of lines -/

/-- A text behind a newline. -/
def newlineTokens (l : Text) : List Token :=
  .char '\n' :: tokens l

/-- There is no marker in front of opening braces. -/
theorem next?_of_freeOf {a b : Text} (h : Text.FreeOf Marker.opening (a ++ b)) : Marker.next? a = none := by
  refine Marker.next?_eq_none_iff.2 fun x i y he => ?_
  have hcut : Text.cutFirst? Marker.opening
      (x ++ Marker.opening ++ (i ++ Marker.closing ++ y ++ b ++ Marker.opening)) = some (a ++ b, []) := by
    rw [← h, he, Marker.enclose]
    simp only [List.append_assoc]
  have hp := Text.prefix_of_cutFirst? hcut
  have := hp.length_le
  rw [he] at this
  simp only [Marker.enclose, Marker.opening, List.length_append, List.length_cons] at this
  omega

/-- Each marker of the text stands in one line. -/
def Unbroken (t : Text) : Prop :=
  ∀ i ∈ inners t, '\n' ∉ i

instance (t : Text) : Decidable (Unbroken t) :=
  inferInstanceAs (Decidable (∀ i ∈ inners t, '\n' ∉ i))

theorem append_newline_eq {m s a b : Text} (hm : '\n' ∉ m) (h : a ++ '\n' :: b = m ++ s) :
    ∃ as, a = m ++ as ∧ s = as ++ '\n' :: b := by
  rcases List.append_eq_append_iff.1 h with ⟨as, rfl, hs⟩ | ⟨as, rfl, hs⟩
  · cases as with
    | nil => exact ⟨[], by simp, hs.symm⟩
    | cons c as =>
      obtain ⟨rfl, -⟩ := List.cons.inj hs
      exact absurd (List.mem_append_right a List.mem_cons_self) hm
  · exact ⟨as, rfl, hs⟩

/-- A newline stands in front of the first marker of its text, behind it, or in it. -/
theorem newline_cases {a b gap inner after : Text} (h : Marker.next? (a ++ '\n' :: b) = some (gap, inner, after)) :
    (∃ as, gap = a ++ '\n' :: as ∧ b = as ++ Marker.enclose inner ++ after) ∨
      (∃ cs, a = gap ++ Marker.enclose inner ++ cs ∧ after = cs ++ '\n' :: b) ∨
      ∃ x y, inner = x ++ '\n' :: y ∧ a = gap ++ Marker.opening ++ x ∧ b = y ++ Marker.closing ++ after := by
  have hno : '\n' ∉ Marker.opening ∧ '\n' ∉ Marker.closing := by decide
  obtain ⟨-, -, he⟩ := Marker.next?_eq_some_iff.1 h
  rw [Marker.enclose] at he ⊢
  simp only [List.append_assoc] at he
  rcases List.append_eq_append_iff.1 he with ⟨as, rfl, hrest⟩ | ⟨bs, rfl, hrest⟩
  · cases as with
    | nil => cases (List.cons.inj hrest).1
    | cons c as =>
      obtain ⟨rfl, rfl⟩ := List.cons.inj hrest
      exact .inl ⟨as, rfl, by simp⟩
  · obtain ⟨cs, rfl, hinner⟩ := append_newline_eq hno.1 hrest.symm
    rcases List.append_eq_append_iff.1 hinner with ⟨ds, rfl, hbehind⟩ | ⟨ds, rfl, hbehind⟩
    · obtain ⟨es, rfl, rfl⟩ := append_newline_eq hno.2 hbehind.symm
      exact .inr (.inl ⟨es, by simp, rfl⟩)
    · cases ds with
      | nil => cases (List.cons.inj hbehind).1
      | cons c ds =>
        obtain ⟨rfl, rfl⟩ := List.cons.inj hbehind
        exact .inr (.inr ⟨cs, ds, rfl, by simp, by simp⟩)

/-- A marker that a newline stands in is torn if the text ends before the newline. -/
theorem next?_torn {gap x y after : Text}
    (h : Marker.next? (gap ++ Marker.opening ++ x ++ '\n' :: (y ++ Marker.closing ++ after)) =
      some (gap, x ++ '\n' :: y, after)) : Marker.next? (gap ++ Marker.opening ++ x) = none := by
  refine Option.eq_none_iff_forall_ne_some.2 ?_
  rintro ⟨g, i, r⟩ hx
  obtain ⟨hg, hi, he⟩ := Marker.next?_eq_some_iff.1 hx
  have hnext := Marker.next?_eq_some_iff.2 ⟨hg, hi,
    (congrArg (· ++ '\n' :: (y ++ Marker.closing ++ after)) he).trans (List.append_assoc ..)⟩
  obtain ⟨rfl, rfl, -⟩ : gap = g ∧ x ++ '\n' :: y = i ∧ _ := by
    simpa using h.symm.trans hnext
  have := congrArg List.length he
  simp only [Marker.enclose, Marker.closing, List.length_append, List.length_cons] at this
  omega

/-- A newline stands between the tokens of what is in front of it and behind it, or it stands in a marker,
which is torn then. -/
theorem tokens_newline_cases (a b : Text) :
    tokens (a ++ '\n' :: b) = tokens a ++ newlineTokens b ∨
      ∃ d x y after, a = d ++ Marker.opening ++ x ∧ b = y ++ Marker.closing ++ after ∧
        tokens a = tokens d ++ charTokens (Marker.opening ++ x) ∧
        tokens (a ++ '\n' :: b) = tokens d ++ .marker (x ++ '\n' :: y) :: tokens after := by
  induction hl : a.length using Nat.strongRecOn generalizing a with
  | ind n ih =>
    cases hn : Marker.next? (a ++ '\n' :: b) with
    | none =>
      have hb : Marker.next? b = none := Marker.next?_none_right (s := a ++ ['\n']) (by simpa using hn)
      have ha : Marker.next? a = none := Marker.next?_eq_none_iff.2 fun x i y he =>
        Marker.next?_eq_none_iff.1 hn x i (y ++ '\n' :: b) (by rw [he]; simp only [List.append_assoc])
      left
      rw [newlineTokens, Marker.tokens_of_next?_none hn, Marker.tokens_of_next?_none ha,
        Marker.tokens_of_next?_none hb, Marker.charTokens_append, Marker.charTokens_cons]
    | some r =>
      obtain ⟨gap, inner, after⟩ := r
      obtain ⟨hgap, hinner, -⟩ := Marker.next?_eq_some_iff.1 hn
      have htokens := Marker.tokens_of_next?_some hn
      rcases newline_cases hn with ⟨as, rfl, rfl⟩ | ⟨cs, rfl, rfl⟩ | ⟨x, y, rfl, rfl, rfl⟩
      · have hb : Marker.next? (as ++ Marker.enclose inner ++ after) = some (as, inner, after) :=
          Marker.next?_eq_some_iff.2 ⟨(hgap.right (s := a)).tail, hinner, rfl⟩
        left
        rw [htokens, newlineTokens, Marker.tokens_of_next?_some hb,
          Marker.tokens_of_next?_none (next?_of_freeOf hgap)]
        simp
      · have hfirst : ∀ d, tokens (gap ++ Marker.enclose inner ++ d) =
            charTokens gap ++ .marker inner :: tokens d := fun d =>
          Marker.tokens_of_next?_some (Marker.next?_eq_some_iff.2 ⟨hgap, hinner, rfl⟩)
        have hlt : cs.length < n := by
          have : 0 < (Marker.enclose inner).length := List.length_pos_iff.2 (text_ne_nil (.marker inner))
          simp only [List.length_append] at hl
          omega
        rcases ih _ hlt cs rfl with hcs | ⟨d, x, y, after, rfl, rfl, hd, hcs⟩
        · exact .inl (by rw [htokens, hcs, hfirst]; simp)
        · refine .inr ⟨gap ++ Marker.enclose inner ++ d, x, y, after, by simp, rfl, ?_, ?_⟩
          · rw [hfirst, hfirst, hd]
            simp
          · rw [htokens, hcs, hfirst]
            simp
      · have htokensGap : tokens gap = charTokens gap :=
          Marker.tokens_of_next?_none (next?_of_freeOf (b := []) (by simpa using hgap))
        refine .inr ⟨gap, x, y, after, rfl, rfl, ?_, by rw [htokens, htokensGap]⟩
        rw [Marker.tokens_of_next?_none (next?_torn hn), htokensGap]
        simp

/-- A newline outside markers stands between the tokens of what is in front of it and behind it. -/
theorem tokens_newline {a b : Text} (h : Unbroken (a ++ '\n' :: b)) :
    tokens (a ++ '\n' :: b) = tokens a ++ newlineTokens b := by
  refine (tokens_newline_cases a b).resolve_right ?_
  rintro ⟨d, x, y, after, -, -, -, htokens⟩
  refine absurd (List.mem_append_right x List.mem_cons_self) (h (x ++ '\n' :: y) ?_)
  rw [inners, htokens]
  simp [Token.inner?]

theorem Unbroken.of_newline {a b : Text} (h : Unbroken (a ++ '\n' :: b)) : Unbroken a ∧ Unbroken b := by
  have hinners : inners (a ++ '\n' :: b) = inners a ++ inners b := by
    rw [inners, tokens_newline h, newlineTokens, List.filterMap_append]
    rfl
  exact ⟨fun i hi => h i (hinners ▸ List.mem_append_left _ hi),
    fun i hi => h i (hinners ▸ List.mem_append_right _ hi)⟩

theorem tokens_unlines {l : Text} {ls : List Text} (h : Unbroken (Text.unlines (l :: ls))) :
    tokens (Text.unlines (l :: ls)) = tokens l ++ ls.flatMap newlineTokens := by
  induction ls generalizing l with
  | nil => simp [Text.unlines, Text.join]
  | cons l' ls ih =>
    have hlines : Text.unlines (l :: l' :: ls) = l ++ '\n' :: Text.unlines (l' :: ls) :=
      @Text.unlines_append [l] (l' :: ls) (by simp) (by simp)
    rw [hlines] at h ⊢
    rw [tokens_newline h, newlineTokens, ih h.of_newline.2]
    simp [newlineTokens]

/-! ## Markers of items -/

/-- Sections are nested in sound items, and all other markers are fields. -/
theorem Item.nested_linesOf {is : List Item} (h : AllSound is) :
    ∃ ss, Nested ((linesOf is).flatMap inners) ss ∧ ∀ i ∈ ss, (classify i).kind = .field := by
  match is, h with
  | [], _ => exact ⟨[], .nil, by simp⟩
  | .line t :: is, ⟨⟨_, ht⟩, his⟩ =>
    obtain ⟨ss, hss, hfields⟩ := nested_linesOf his
    refine ⟨inners t ++ ss, ?_, ?_⟩
    · simpa [linesOf, lines] using (nested_self (inners t)).append hss
    · intro i hi
      exact (List.mem_append.1 hi).elim (ht i) (hfields i)
  | .repeated o k body :: is, ⟨⟨⟨ho, hk⟩, hends, hbody⟩, his⟩ =>
    obtain ⟨inside, hinside, hfields⟩ := nested_linesOf hbody
    obtain ⟨ss, hss, hfields'⟩ := nested_linesOf his
    refine ⟨inside ++ ss, ?_, ?_⟩
    · have hmarker : ∀ {i : Text}, Text.FreeOf Marker.closing i → inners (Marker.enclose i) = [i] := by
        intro i hi
        rw [inners, ← List.append_nil (Marker.enclose i), Marker.tokens_enclose hi, Marker.tokens_nil]
        rfl
      have := Nested.pair hends hinside ?_ ?_ hss
      · simpa [linesOf, lines, hmarker ho, hmarker hk] using this
      · rintro i hi ⟨hsection, -⟩
        rw [hfields i hi] at hsection
        cases hsection
      · intro i hi j hj hij
        have := hij.kinds.1
        rw [hfields i hi] at this
        cases this
    · intro i hi
      exact (List.mem_append.1 hi).elim (hfields i) (hfields' i)

/-! ## Symbols of items -/

/-- The symbols of items: the tokens of a line, with the newline behind it, and sections. The body of a
section is its lines, each with a newline. One that is not followed by any more text lacks a newline. -/
def IsSymbols : List Item → List Symbol → Prop
  | [], xs => xs = []
  | .line l :: is, xs => ∃ ys, IsSymbols is ys ∧
    xs = (tokens l).map .token ++ (if is = [] then [] else [.token (.char '\n')]) ++ ys
  | .repeated o _ body :: is, xs => ∃ s index ys, IsSymbols is ys ∧ xs = .span s index :: ys ∧
    s.opener.toSense = classify o ∧ s.body = Item.textOf (body ++ [.line []]) ∧
    (s.trimNewline ↔ is = [] ∨ is = [.line []])

/-- Tokens that no section begins with are symbols. -/
theorem symbolsFrom_plain {vs : List Token} (hb : Between t offset ts (vs ++ us))
    (hvs : ∀ i, .marker i ∈ vs → (classify i).kind ≠ .sectionStart) (index : Nat) :
    symbolsFrom t index offset (Span.findFrom t offset (locateTokens offset (vs ++ us))).1 =
      vs.map .token ++ symbolsFrom t index (offset + (joinTokens vs).length)
        (Span.findFrom t (offset + (joinTokens vs).length)
          (locateTokens (offset + (joinTokens vs).length) us)).1 := by
  induction vs generalizing offset ts with
  | nil => rfl
  | cons k vs ih =>
    have hnext : Between t (offset + k.text.length) (ts ++ [k]) (vs ++ us) := hb.after_token
    have hfind : (Span.findFrom t offset (locateTokens offset (k :: (vs ++ us)))).1 =
        (Span.findFrom t (offset + k.text.length) (locateTokens (offset + k.text.length) (vs ++ us))).1 := by
      have hoffset : Span.findFrom t offset (locateTokens (offset + k.text.length) (vs ++ us)) =
          Span.findFrom t (offset + k.text.length) (locateTokens (offset + k.text.length) (vs ++ us)) :=
        Span.findFrom_offset fun m hm => by
          have := le_start_of_mem_locateTokens hm
          omega
      rw [← hoffset]
      cases k with
      | char c => rfl
      | marker i => exact congrArg Prod.fst (Span.findFrom_other (hvs i List.mem_cons_self))
    have hplaced := Span.placed_findFrom hnext.sublist_scan (offset + k.text.length)
    rw [List.cons_append, hfind, symbolsFrom_token hb hplaced,
      ih hnext fun i hi => hvs i (List.mem_cons_of_mem _ hi)]
    simp only [Marker.joinTokens_cons, List.length_append, Nat.add_assoc, List.map_cons, List.cons_append]

/-- A token at an offset is a character of the text there. -/
theorem Between.getElem? {c : Char} (h : Between t offset ts (.char c :: us)) : t[offset]? = some c := by
  have hdrop := h.drop
  rw [Marker.joinTokens_cons] at hdrop
  rw [← Nat.add_zero offset, ← List.getElem?_drop, hdrop]
  rfl

theorem Between.before_char {c : Char} (h : Between t offset (ts ++ [.char c]) us) :
    0 < offset ∧ Between t (offset - 1) ts (.char c :: us) := by
  have hlen := h.2
  rw [Marker.joinTokens_append, List.length_append] at hlen
  have hone : (joinTokens [Token.char c]).length = 1 := rfl
  exact ⟨by omega, by rw [h.1]; simp, by omega⟩

theorem Between.length_eq (h : Between t offset ts us) : t.length = offset + (joinTokens us).length := by
  rw [h.eq_append, List.length_append, h.2]

/-- An opening marker at the start of a line, with a newline behind it, fills its line. -/
theorem opensLine_ofInner {o : Text} (hb : Between t offset ts (.marker o :: .char '\n' :: us))
    (hstart : offset = 0 ∨ t[offset - 1]? = some '\n') : Span.opensLine t (ofInner o offset) := by
  have hline : (decide ((ofInner o offset).start = 0) || t[(ofInner o offset).start - 1]? == some '\n') =
      true := by
    show (decide (offset = 0) || t[offset - 1]? == some '\n') = true
    simpa using hstart
  rw [Span.opensLine, hline, hb.after_marker.getElem?]
  rfl

/-- A closing marker behind a newline, with a newline or nothing behind it, fills its line. -/
theorem closesLine_ofInner {k : Text} (hb : Between t offset (ts ++ [.char '\n']) (.marker k :: us))
    (hus : us.head?.all (· = .char '\n')) : Span.closesLine t (ofInner k offset) := by
  obtain ⟨hpos, hnewline⟩ := hb.before_char
  have hafter : Between t (ofInner k offset).stop (ts ++ [.char '\n'] ++ [.marker k]) us := hb.after_marker
  have hend : (decide ((ofInner k offset).stop = t.length) || t[(ofInner k offset).stop]? == some '\n') =
      true := by
    cases us with
    | nil =>
      rw [hafter.length_eq]
      exact Bool.or_eq_true_iff.2 (.inl (decide_eq_true rfl))
    | cons u us =>
      obtain rfl : u = .char '\n' := by simpa using hus
      rw [hafter.getElem?]
      simp
  have hbefore : t[(ofInner k offset).start - 1]? = some '\n' := hnewline.getElem?
  have hstart : 0 < (ofInner k offset).start := hpos
  rw [Span.closesLine, hbefore, hend]
  simpa using hstart

/-- A section whose markers fill a line each. -/
theorem spanAt_lines {o k : Text} {mid mid' rest us : List Token}
    (hb : Between t offset ts (.marker o :: (mid ++ .marker k :: rest)))
    (hstart : offset = 0 ∨ t[offset - 1]? = some '\n') (hmid : mid = .char '\n' :: mid')
    (hlast : ∃ vs, mid = vs ++ [.char '\n']) (hrest : rest = [] ∧ us = [] ∨ rest = .char '\n' :: us) :
    (spanAt t offset o mid k).opener = ofInner o offset ∧
      (spanAt t offset o mid k).body = joinTokens mid' ∧
      ((spanAt t offset o mid k).trimNewline ↔ us = []) ∧
      (∃ ts', Between t (spanAt t offset o mid k).stop ts' us) ∧
      (rest ≠ [] → t[(spanAt t offset o mid k).stop - 1]? = some '\n') ∧
      (closerAt offset o mid k).stop ≤ (spanAt t offset o mid k).stop ∧
      locateTokens (closerAt offset o mid k).stop rest =
        locateTokens (spanAt t offset o mid k).stop us := by
  have hcloser := between_closerAt hb
  have hafter : Between t (closerAt offset o mid k).stop (ts ++ [.marker o] ++ mid ++ [.marker k]) rest :=
    hcloser.after_marker
  have hopens : Span.opensLine t (ofInner o offset) := opensLine_ofInner (by rwa [hmid] at hb) hstart
  have hcloses : Span.closesLine t (closerAt offset o mid k) := by
    obtain ⟨vs, hvs⟩ := hlast
    have hvs' : ts ++ [.marker o] ++ mid = ts ++ [.marker o] ++ vs ++ [.char '\n'] := by
      rw [hvs, List.append_assoc _ vs]
    refine closesLine_ofInner (hvs' ▸ hcloser) ?_
    rcases hrest with ⟨rfl, -⟩ | rfl <;> simp
  have hbody : Text.slice t (ofInner o offset).stop (closerAt offset o mid k).start = joinTokens mid :=
    hb.after_marker.slice hcloser
  have hspan : spanAt t offset o mid k =
      { opener := ofInner o offset
        start := offset
        stop := if (closerAt offset o mid k).stop < t.length then (closerAt offset o mid k).stop + 1
          else (closerAt offset o mid k).stop
        body := (joinTokens mid).drop 1
        trimNewline := t.length ≤ if (closerAt offset o mid k).stop < t.length then
          (closerAt offset o mid k).stop + 1 else (closerAt offset o mid k).stop } := by
    rw [spanAt, Span.between, hopens, hcloses, hbody]
    rfl
  have hlength := hafter.length_eq
  rcases hrest with ⟨rfl, rfl⟩ | rfl
  · have hstop : ¬ (closerAt offset o mid k).stop < t.length := by
      rw [Marker.joinTokens_nil, List.length_nil] at hlength
      omega
    rw [if_neg hstop] at hspan
    rw [hspan]
    refine ⟨rfl, by rw [hmid]; rfl, ?_, ⟨_, hafter⟩, fun h => absurd rfl h, Nat.le_refl _, rfl⟩
    simpa using hstop
  · have hstop : (closerAt offset o mid k).stop < t.length := by
      rw [Marker.joinTokens_cons, List.length_append] at hlength
      have : (Token.char '\n').text.length = 1 := rfl
      omega
    rw [if_pos hstop] at hspan
    have hnext := hafter.after_token
    rw [hspan]
    refine ⟨rfl, by rw [hmid]; rfl, ?_, ⟨_, hnext⟩, fun _ => hafter.getElem?, Nat.le_succ _, rfl⟩
    have hlength' := hnext.length_eq
    have hone : (Token.char '\n').text.length = 1 := rfl
    rw [decide_eq_true_iff]
    constructor
    · intro h
      exact eq_nil_of_joinTokens (List.length_eq_zero_iff.1 (by omega))
    · rintro rfl
      rw [Marker.joinTokens_nil, List.length_nil] at hlength'
      omega

theorem Between.after_tokens {vs : List Token} (h : Between t offset ts (vs ++ us)) :
    Between t (offset + (joinTokens vs).length) (ts ++ vs) us :=
  ⟨by rw [h.1, List.append_assoc], by rw [Marker.joinTokens_append, List.length_append, h.2]⟩

/-! ## The text of items -/

theorem Item.textOf_cons {i : Item} {is : List Item} (h : is ≠ []) :
    textOf (i :: is) = Text.unlines i.lines ++ '\n' :: textOf is :=
  Text.unlines_append i.lines_ne_nil fun he => h (linesOf_eq_nil he)

theorem Item.textOf_singleton (i : Item) : textOf [i] = Text.unlines i.lines := by
  rw [textOf, linesOf, linesOf, List.append_nil]

theorem Item.textOf_eq_nil {is : List Item} : textOf is = [] ↔ is = [] ∨ is = [.line []] := by
  constructor
  · intro h
    rcases is with _ | ⟨i, _ | ⟨j, is⟩⟩
    · exact .inl rfl
    · cases i with
      | line l =>
        rw [textOf_singleton] at h
        exact .inr (by rw [show l = [] from h])
      | repeated o k body =>
        rw [textOf_singleton, lines] at h
        have := @Text.unlines_append [Marker.enclose o] (linesOf body ++ [Marker.enclose k])
          (by simp) (by simp)
        rw [List.singleton_append, h] at this
        simp at this
    · rw [textOf_cons (by simp)] at h
      simp at h
  · rintro (rfl | rfl) <;> rfl

/-- The lines of a section's body, each with a newline. -/
theorem Item.textOf_append_nil (is : List Item) :
    textOf (is ++ [.line []]) = (linesOf is).flatMap (· ++ ['\n']) := by
  rw [textOf, linesOf_append, Text.unlines, linesOf, linesOf, lines, List.append_nil, Text.join_append_cons]
  simp

/-- The tokens of a section whose markers fill a line each. -/
theorem tokens_repeated {o k : Text} {body : List Item} (ho : Text.FreeOf Marker.closing o)
    (hk : Text.FreeOf Marker.closing k) (h : Unbroken (Text.unlines (Item.repeated o k body).lines)) :
    tokens (Text.unlines (Item.repeated o k body).lines) =
      .marker o :: ((linesOf body).flatMap newlineTokens ++ [.char '\n'] ++ [.marker k]) := by
  have hmarker : ∀ {i : Text}, Text.FreeOf Marker.closing i → tokens (Marker.enclose i) = [.marker i] := by
    intro i hi
    rw [← List.append_nil (Marker.enclose i), Marker.tokens_enclose hi, Marker.tokens_nil]
  rw [lines] at h ⊢
  rw [tokens_unlines h, hmarker ho]
  simp [newlineTokens, hmarker hk]

theorem filterMap_newlineTokens (ls : List Text) :
    (ls.flatMap newlineTokens).filterMap Token.inner? = ls.flatMap inners := by
  induction ls with
  | nil => rfl
  | cons l ls ih => simp only [List.flatMap_cons, List.filterMap_append, ih]; rfl

theorem joinTokens_terminated (ls : List Text) :
    joinTokens (ls.flatMap fun l => tokens l ++ [.char '\n']) = ls.flatMap (· ++ ['\n']) := by
  induction ls with
  | nil => rfl
  | cons l ls ih =>
    rw [List.flatMap_cons, Marker.joinTokens_append, ih, Marker.joinTokens_append, Marker.joinTokens_tokens]
    rfl

/-- A separator in front of each part and behind the last one stands behind each part and in front of the
first one. -/
theorem flatMap_cons_append {α β : Type} (c : β) (f : α → List β) (xs : List α) :
    xs.flatMap (fun x => c :: f x) ++ [c] = c :: xs.flatMap fun x => f x ++ [c] := by
  induction xs with
  | nil => rfl
  | cons x xs ih => simp only [List.flatMap_cons, List.cons_append, List.append_assoc, ih, List.nil_append]

/-- The symbol of a section whose markers fill a line each. -/
theorem symbolsFrom_repeated {o k : Text} {body : List Item} {rest us : List Token}
    (hsound : (Item.repeated o k body).Sound) (hone : Unbroken (Text.unlines (Item.repeated o k body).lines))
    (hb : Between t offset ts (tokens (Text.unlines (Item.repeated o k body).lines) ++ rest))
    (hstart : offset = 0 ∨ t[offset - 1]? = some '\n') (hrest : rest = [] ∧ us = [] ∨ rest = .char '\n' :: us)
    (index : Nat) :
    ∃ s ts', symbolsFrom t index offset (Span.findFrom t offset
        (locateTokens offset (tokens (Text.unlines (Item.repeated o k body).lines) ++ rest))).1 =
          .span s index :: symbolsFrom t (index + 1) s.stop (Span.findFrom t s.stop (locateTokens s.stop us)).1 ∧
      s.opener.toSense = classify o ∧ s.body = textOf (body ++ [.line []]) ∧ (s.trimNewline ↔ us = []) ∧
      Between t s.stop ts' us ∧ (rest ≠ [] → t[s.stop - 1]? = some '\n') := by
  obtain ⟨⟨ho, hk⟩, hends, hbody⟩ := hsound
  obtain ⟨inside, hinside, hfields⟩ := nested_linesOf hbody
  have hmid := flatMap_cons_append (.char '\n') tokens (linesOf body)
  change (linesOf body).flatMap newlineTokens ++ [.char '\n'] = _ at hmid
  have hnested : Nested (((linesOf body).flatMap newlineTokens ++ [Token.char '\n']).filterMap Token.inner?)
      inside := by
    rw [List.filterMap_append, filterMap_newlineTokens,
      show [Token.char '\n'].filterMap Token.inner? = [] from rfl, List.append_nil]
    exact hinside
  have hforeign : ∀ i ∈ inside, ¬ IsAbout o i := by
    rintro i hi ⟨hsection, -⟩
    rw [hfields i hi] at hsection
    cases hsection
  rw [tokens_repeated ho hk hone] at hb ⊢
  rw [List.cons_append, List.append_assoc, List.singleton_append] at hb ⊢
  obtain ⟨hopener, hspan, htrim, ⟨ts', hnext⟩, hnewline, hle, hlocate⟩ :=
    spanAt_lines hb hstart hmid ⟨_, rfl⟩ hrest
  rw [findFrom_spanAt hends hnested hforeign hle, hlocate, symbolsFrom_span start_spanAt]
  refine ⟨_, ts', rfl, by rw [hopener]; rfl, ?_, htrim, hnext, hnewline⟩
  rw [hspan, joinTokens_terminated, textOf_append_nil]

/-- The first of some items has tokens of its own, and a newline behind it if there are others. -/
theorem exists_tokens_textOf_cons {i : Item} {is : List Item} (h : Unbroken (textOf (i :: is))) :
    ∃ vs us, (is = [] ∧ us = [] ∨ is ≠ [] ∧ us = tokens (textOf is)) ∧
      (vs = if is = [] then [] else [.char '\n']) ∧ Unbroken (Text.unlines i.lines) ∧
      tokens (textOf (i :: is)) = tokens (Text.unlines i.lines) ++ (vs ++ us) := by
  by_cases hnil : is = []
  · rw [hnil, textOf_singleton] at h
    exact ⟨[], [], .inl ⟨hnil, rfl⟩, by rw [if_pos hnil], h, by rw [hnil, textOf_singleton]; simp⟩
  · rw [textOf_cons hnil] at h
    exact ⟨[.char '\n'], _, .inr ⟨hnil, rfl⟩, by rw [if_neg hnil], h.of_newline.1,
      by rw [textOf_cons hnil, tokens_newline h]; rfl⟩

/-- **The symbols of items**, from any place of a text on at which they begin a line and go to its end. -/
theorem isSymbols_from {is : List Item} (hne : is ≠ []) (hsound : AllSound is) (hone : Unbroken (textOf is))
    (hb : Between t offset ts (tokens (textOf is))) (hstart : offset = 0 ∨ t[offset - 1]? = some '\n')
    (index : Nat) :
    IsSymbols is (symbolsFrom t index offset
      (Span.findFrom t offset (locateTokens offset (tokens (textOf is)))).1) := by
  induction is generalizing offset ts index with
  | nil => exact absurd rfl hne
  | cons i is ih =>
    -- The other items, if there are any, stand behind a newline.
    have hrest : ∀ {offset : Nat} {ts us : List Token} (index : Nat),
        (is = [] ∧ us = [] ∨ is ≠ [] ∧ us = tokens (textOf is)) → Between t offset ts us →
        (is ≠ [] → t[offset - 1]? = some '\n') →
        IsSymbols is (symbolsFrom t index offset (Span.findFrom t offset (locateTokens offset us)).1) := by
      intro offset ts us index hus hb hnewline
      rcases hus with ⟨rfl, rfl⟩ | ⟨hne, rfl⟩
      · show symbolsFrom t index offset [] = []
        rw [symbolsFrom, hb.drop, Marker.joinTokens_nil, Marker.tokens_nil]
        rfl
      · have hone' : Unbroken (textOf is) := (textOf_cons (i := i) hne ▸ hone).of_newline.2
        exact ih hne hsound.2 hone' hb (.inr (hnewline hne)) index
    obtain ⟨vs, us, hus, hvs, hone', htokens⟩ := exists_tokens_textOf_cons hone
    rw [htokens] at hb ⊢
    cases i with
    | line l =>
      have hplain : ∀ i, .marker i ∈ tokens l ++ vs → (classify i).kind ≠ .sectionStart := by
        intro i hi hk
        have hmem : .marker i ∈ tokens l := by
          rcases List.mem_append.1 hi with hi | hi
          · exact hi
          · rw [hvs] at hi
            split at hi <;> simp at hi
        rw [hsound.1.2 i (List.mem_filterMap.2 ⟨_, hmem, rfl⟩)] at hk
        cases hk
      rw [← List.append_assoc] at hb ⊢
      change Between t offset ts (tokens l ++ vs ++ us) at hb
      show IsSymbols (.line l :: is) (symbolsFrom t index offset
        (Span.findFrom t offset (locateTokens offset (tokens l ++ vs ++ us))).1)
      refine ⟨_, hrest index hus hb.after_tokens ?_, ?_⟩
      · intro hne
        rw [if_neg hne] at hvs
        have hafter := hb.after_tokens
        rw [hvs, ← List.append_assoc] at hafter
        rw [hvs]
        exact (Between.before_char hafter).2.getElem?
      · rw [symbolsFrom_plain hb hplain, hvs]
        split <;> simp
    | repeated o k body =>
      have hafter : vs ++ us = [] ∧ us = [] ∨ vs ++ us = .char '\n' :: us := by
        rcases hus with ⟨hnil, rfl⟩ | ⟨hne, -⟩
        · exact .inl ⟨by rw [hvs, if_pos hnil]; rfl, rfl⟩
        · exact .inr (by rw [hvs, if_neg hne]; rfl)
      obtain ⟨s, ts', hsymbols, hopener, hspan, htrim, hnext, hnewline⟩ :=
        symbolsFrom_repeated hsound.1 hone' hb hstart hafter index
      refine ⟨s, index, _, hrest (index + 1) hus hnext fun hne => hnewline ?_, hsymbols, hopener, hspan,
        htrim.trans ?_⟩
      · rw [hvs, if_neg hne]
        simp
      · rw [← textOf_eq_nil]
        rcases hus with ⟨rfl, rfl⟩ | ⟨-, rfl⟩
        · exact ⟨fun _ => rfl, fun _ => rfl⟩
        · constructor
          · intro h
            rw [← Marker.joinTokens_tokens (textOf is), h, Marker.joinTokens_nil]
          · intro h
            rw [h, Marker.tokens_nil]

/-- **The symbols of a text of whole lines** are those of its items. -/
theorem isSymbols_symbols {is : List Item} (hsound : AllSound is) (hone : Unbroken (textOf is)) :
    IsSymbols is (symbols (textOf is)) := by
  cases is with
  | nil => exact (by decide +kernel : symbols (textOf []) = [])
  | cons i is =>
    have h := isSymbols_from (by simp) hsound hone (Between.zero _) (.inl rfl) 0
    rwa [← Span.find_eq] at h

end MailMerge.Section
