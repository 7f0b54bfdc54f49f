import MailMerge.Proofs.Section.Nested
import MailMerge.Proofs.Section.Symbols

/-!
# Strays around the sections of a text

In a text with nested sections the outermost ones are found, and what is around them are its strays.

**`exists_strays`**: the strays of a text are those of its symbols, one after the other.
-/

namespace MailMerge.Section

open Marker (Token tokens joinTokens ofInner classify locateTokens Sealed)

variable {t : Text} {ts us : List Token} {ss : List Text} {offset : Nat} {spans : List Span}

/-! ## Walking over tokens -/

theorem Between.after_token {k : Token} (h : Between t offset ts (k :: us)) :
    Between t (offset + k.text.length) (ts ++ [k]) us := by
  refine ⟨by rw [h.1]; simp, ?_⟩
  rw [Marker.joinTokens_append, List.length_append, h.2]
  simp

theorem drop_take_append {α : Type} {xs ys : List α} {i j : Nat} (hx : i + xs.length ≤ j)
    {l : List α} (h : l.drop i = xs ++ ys) :
    (l.take j).drop i = xs ++ (l.take j).drop (i + xs.length) := by
  have hdrop : l.drop (i + xs.length) = ys := by
    rw [← List.drop_drop, h, List.drop_left]
  rw [List.drop_take, List.drop_take, h, hdrop, List.take_append]
  congr 1
  · exact List.take_of_length_le (by omega)
  · congr 1
    omega

/-- A token before the next section is a symbol. -/
theorem symbolsFrom_token {k : Token} (hb : Between t offset ts (k :: us))
    (hp : Span.Placed t (offset + k.text.length) spans) (index : Nat) :
    symbolsFrom t index offset spans =
      .token k :: symbolsFrom t index (offset + k.text.length) spans := by
  have hnext := hb.after_token
  cases spans with
  | nil =>
    rw [symbolsFrom, symbolsFrom, hb.drop, hnext.drop, Marker.tokens_right hb.1,
      Marker.tokens_right hnext.1]
    rfl
  | cons s spans =>
    obtain ⟨hle, hs, -⟩ := hp
    obtain ⟨gap, opener, rest, htok, hslice, -⟩ := hs.exists_gap hnext hle
    have hsealed : Sealed (k :: gap) := by
      have : tokens t = ts ++ (k :: gap) ++ .marker opener :: rest := by
        rw [htok]
        simp
      exact (Marker.sealed_left this).1.right
    have hgap : Text.slice t offset s.start = joinTokens (k :: gap) := by
      rw [Text.slice, drop_take_append hle (by rw [hb.drop]; rfl)]
      exact congrArg (k.text ++ ·) hslice
    have hsealed' : Sealed gap := @Sealed.right [k] _ hsealed
    rw [symbolsFrom, symbolsFrom, hgap, hslice, Marker.tokens_joinTokens hsealed,
      Marker.tokens_joinTokens hsealed']
    rfl

/-- A section that begins at the offset is the next symbol. -/
theorem symbolsFrom_span {s : Span} (h : s.start = offset) (index : Nat) :
    symbolsFrom t index offset (s :: spans) =
      .span s index :: symbolsFrom t (index + 1) s.stop spans := by
  have : Text.slice t offset s.start = [] := by
    rw [Text.slice, h]
    exact List.drop_eq_nil_of_le (List.length_take_le ..)
  rw [symbolsFrom, this, Marker.tokens_nil]
  rfl

/-! ## Finding sections -/

variable {opener : Marker} {depth : Int} {ms : List Marker}

theorem findCloser_filter :
    findCloser opener depth (ms.filter fun m => m.kind.isSection) = findCloser opener depth ms := by
  induction ms generalizing depth with
  | nil => rfl
  | cons m ms ih =>
    by_cases hm : m.kind.isSection
    · rw [List.filter_cons, if_pos hm, findCloser, findCloser, ih, ih, ih]
    · have hopens : m.opensLike opener = false := by
        rw [Marker.opensLike, Bool.and_eq_false_iff]
        refine .inl (beq_eq_false_iff_ne.2 fun hk => hm ?_)
        rw [hk]
        rfl
      have hcloses : m.closes opener = false := by
        rw [Marker.closes, Bool.and_eq_false_iff, Bool.and_eq_false_iff]
        refine .inl (.inl (beq_eq_false_iff_ne.2 fun hk => hm ?_))
        rw [hk]
        rfl
      rw [List.filter_cons, if_neg hm, ih, findCloser, hopens, hcloses]
      rfl

namespace Span

theorem findFrom_filter (t : Text) (offset : Nat) (ms : List Marker) :
    findFrom t offset (ms.filter fun m => m.kind.isSection) = findFrom t offset ms := by
  induction ms generalizing offset with
  | nil => rfl
  | cons m ms ih =>
    by_cases hm : m.kind.isSection
    · rw [List.filter_cons, if_pos hm, findFrom, findFrom, findCloser_filter]
      simp only [ih]
    · have hk : m.kind ≠ .sectionStart := by
        intro hk
        rw [hk] at hm
        exact hm rfl
      rw [List.filter_cons, if_neg hm, ih, findFrom, if_neg fun h => hk h.1]

theorem find_eq (t : Text) : find t = findFrom t 0 (locateTokens 0 (tokens t)) := by
  rw [find, markersOf, Marker.scanFor, findFrom_filter, Marker.scan_eq_locateTokens]

theorem findFrom_other {m : Marker} (h : m.kind ≠ .sectionStart) :
    findFrom t offset (m :: ms) = findFrom t offset ms := by
  rw [findFrom, if_neg fun hk => h hk.1]

theorem findFrom_stray {m : Marker} (hk : m.kind = .sectionStart) (hle : offset ≤ m.start)
    (h : (findCloser m 1 ms).1 = none) :
    (findFrom t offset (m :: ms)).1 = (findFrom t m.stop ms).1 := by
  rw [findFrom, if_pos ⟨hk, hle⟩]
  cases hc : findCloser m 1 ms with
  | mk closer depth =>
    rw [hc] at h
    obtain rfl : closer = none := h
    rfl

theorem findFrom_section {m closer : Marker} (hk : m.kind = .sectionStart) (hle : offset ≤ m.start)
    (h : findCloser m 1 ms = (some closer, depth)) :
    (findFrom t offset (m :: ms)).1 =
      between t m closer :: (findFrom t (between t m closer).stop ms).1 := by
  rw [findFrom, if_pos ⟨hk, hle⟩, h]

/-- Markers before the offset are passed over. -/
theorem findFrom_append {before after : List Marker} (h : ∀ m ∈ before, m.start < offset) :
    findFrom t offset (before ++ after) = findFrom t offset after := by
  induction before with
  | nil => rfl
  | cons m before ih =>
    have hm := h m List.mem_cons_self
    rw [List.cons_append, findFrom, if_neg fun hk => absurd hk.2 (by omega)]
    exact ih fun m' hm' => h m' (List.mem_cons_of_mem m hm')

/-- Where the search begins does not matter before the first marker. -/
theorem findFrom_offset {offset' : Nat} (h : ∀ m ∈ ms, offset ≤ m.start ∧ offset' ≤ m.start) :
    findFrom t offset ms = findFrom t offset' ms := by
  induction ms generalizing offset offset' with
  | nil => rfl
  | cons m ms ih =>
    have hm := h m List.mem_cons_self
    rw [findFrom, findFrom, ih fun m' hm' => h m' (List.mem_cons_of_mem m hm')]
    simp only [hm.1, hm.2]

end Span

/-! ## The parts of a section -/

theorem Between.offset_eq {j : Nat} {ts' : List Token} (h : Between t offset ts us)
    (h' : Between t j ts' us) : offset = j := by
  have hlen := congrArg List.length (h.eq_append.symm.trans h'.eq_append)
  rw [List.length_append, List.length_append, h.2, h'.2] at hlen
  omega

/-! ## The symbols of a text with nested sections -/

theorem say_locateTokens (offset : Nat) (us : List Token) :
    Say (locateTokens offset us) (us.filterMap Token.inner?) := by
  induction us generalizing offset with
  | nil => rfl
  | cons k us ih =>
    cases k with
    | char ch => exact ih (offset + 1)
    | marker inner => exact congrArg (classify inner :: ·) (ih (offset + (Marker.enclose inner).length))

theorem start_lt_of_mem_locateTokens {m : Marker} (hm : m ∈ locateTokens offset us) :
    m.start < offset + (joinTokens us).length := by
  induction us generalizing offset with
  | nil => cases hm
  | cons k us ih =>
    rw [Marker.joinTokens_cons, List.length_append, ← Nat.add_assoc]
    cases k with
    | char ch => exact ih hm
    | marker inner =>
      rcases List.mem_cons.1 hm with rfl | hm
      · have : 0 < (Token.marker inner).text.length := List.length_pos_iff.2 (text_ne_nil _)
        show offset < _
        omega
      · exact ih hm

theorem Between.sublist_scan (h : Between t offset ts us) :
    (locateTokens offset us).Sublist (Marker.scan t) := by
  rw [Marker.scan_eq_locateTokens, h.1, Marker.locateTokens_append, h.2, Nat.zero_add]
  exact List.sublist_append_right ..

/-- Tokens around the ends of a section. -/
theorem exists_split {body is : List Text} {c : Text}
    (h : us.filterMap Token.inner? = body ++ c :: is) :
    ∃ mid us', us = mid ++ .marker c :: us' ∧ mid.filterMap Token.inner? = body ∧
      us'.filterMap Token.inner? = is := by
  obtain ⟨first, second, rfl, hfirst, hsecond⟩ := List.filterMap_eq_append_iff.1 h
  obtain ⟨chars, k, us', rfl, hchars, hk, hus'⟩ := List.filterMap_eq_cons_iff.1 hsecond
  refine ⟨first ++ chars, us', ?_, ?_, hus'⟩
  · cases k with
    | char ch => cases hk
    | marker inner =>
      obtain rfl := Option.some.inj hk
      simp
  · rw [List.filterMap_append, hfirst, List.filterMap_eq_nil_iff.2 hchars, List.append_nil]

theorem inners_joinTokens (h : Sealed ts) : inners (joinTokens ts) = ts.filterMap Token.inner? := by
  rw [inners, Marker.tokens_joinTokens h]

/-- The strays of a symbol: a marker by itself, or those in the body of a section, which may be put
together in any order. -/
def Symbol.HasStrays : Symbol → List Text → Prop
  | .token k, ss => ss = k.inner?.toList
  | .span s _, ss => Nested (inners s.body) ss ∧ Apart ss

/-- The symbols of the tokens have the strays. -/
def StraysFrom (t : Text) (offset : Nat) (us : List Token) (ss : List Text) : Prop :=
  ∀ index, ∃ sss, List.Forall₂ Symbol.HasStrays
    (symbolsFrom t index offset (Span.findFrom t offset (locateTokens offset us)).1) sss ∧
    sss.flatten = ss

theorem straysFrom_token {k : Token} (hb : Between t offset ts (k :: us))
    (hfind : (Span.findFrom t offset (locateTokens offset (k :: us))).1 =
      (Span.findFrom t (offset + k.text.length) (locateTokens (offset + k.text.length) us)).1)
    (h : StraysFrom t (offset + k.text.length) us ss) :
    StraysFrom t offset (k :: us) (k.inner?.toList ++ ss) := by
  intro index
  obtain ⟨sss, hsss, rfl⟩ := h index
  have hplaced := Span.placed_findFrom hb.after_token.sublist_scan (offset + k.text.length)
  rw [hfind, symbolsFrom_token hb hplaced]
  exact ⟨_ :: sss, .cons rfl hsss, rfl⟩

/-- A marker that no section begins with is a symbol. -/
theorem straysFrom_stray {i : Text} (hb : Between t offset ts (.marker i :: us))
    (h : (classify i).kind = .sectionStart → (findCloser (ofInner i offset) 1
      (locateTokens (offset + (Token.marker i).text.length) us)).1 = none)
    (hs : StraysFrom t (offset + (Token.marker i).text.length) us ss) :
    StraysFrom t offset (.marker i :: us) (i :: ss) := by
  refine straysFrom_token hb ?_ hs
  show (Span.findFrom t offset (ofInner i offset :: locateTokens _ us)).1 = _
  by_cases hk : (classify i).kind = .sectionStart
  · exact Span.findFrom_stray hk (Nat.le_refl _) (h hk)
  · rw [Span.findFrom_other hk]
    refine congrArg Prod.fst (Span.findFrom_offset fun m hm => ?_)
    have := le_start_of_mem_locateTokens hm
    exact ⟨Nat.le_trans (Nat.le_add_right ..) this, this⟩

section Whole

variable {o c : Text} {mid : List Token} {inside : List Text}

/-- The marker at the end of a section that begins at an offset. -/
def closerAt (offset : Nat) (o : Text) (mid : List Token) (c : Text) : Marker :=
  ofInner c ((ofInner o offset).stop + (joinTokens mid).length)

/-- The section that begins at an offset. -/
def spanAt (t : Text) (offset : Nat) (o : Text) (mid : List Token) (c : Text) : Span :=
  Span.between t (ofInner o offset) (closerAt offset o mid c)

theorem start_spanAt : (spanAt t offset o mid c).start = offset :=
  (Span.opener_between ..).2

theorem locateTokens_section (us : List Token) :
    locateTokens offset (.marker o :: (mid ++ .marker c :: us)) =
      ofInner o offset :: (locateTokens (ofInner o offset).stop mid ++
        closerAt offset o mid c :: locateTokens (closerAt offset o mid c).stop us) :=
  congrArg (ofInner o offset :: ·) (Marker.locateTokens_append ..)

/-- A nested section is found, and those behind it next. -/
theorem findFrom_spanAt (he : Ends o c) (hn : Nested (mid.filterMap Token.inner?) inside)
    (hinside : ∀ i ∈ inside, ¬ IsAbout o i)
    (hle : (closerAt offset o mid c).stop ≤ (spanAt t offset o mid c).stop) :
    (Span.findFrom t offset (locateTokens offset (.marker o :: (mid ++ .marker c :: us)))).1 =
      spanAt t offset o mid c :: (Span.findFrom t (spanAt t offset o mid c).stop
        (locateTokens (closerAt offset o mid c).stop us)).1 := by
  have hclose : findCloser (ofInner o offset) 1 (locateTokens (ofInner o offset).stop mid ++
      closerAt offset o mid c :: locateTokens (closerAt offset o mid c).stop us) =
        (some (closerAt offset o mid c), 0) :=
    findCloser_pair rfl he hn hinside (say_locateTokens (ofInner o offset).stop mid) rfl
  have hlt : (closerAt offset o mid c).start < (closerAt offset o mid c).stop := by
    have : 0 < (Marker.enclose c).length := List.length_pos_iff.2 (text_ne_nil (.marker c))
    show _ < _ + _
    exact Nat.lt_add_of_pos_right this
  have hstart : offset ≤ (ofInner o offset).start := Nat.le_refl offset
  rw [locateTokens_section, Span.findFrom_section he.kinds.1 hstart hclose, List.append_cons]
  refine congrArg (_ :: ·) (congrArg Prod.fst (Span.findFrom_append fun m hm => ?_))
  refine Nat.lt_of_lt_of_le ?_ hle
  rcases List.mem_append.1 hm with hm | hm
  · exact Nat.lt_trans (start_lt_of_mem_locateTokens hm) hlt
  · obtain rfl := List.mem_singleton.1 hm
    exact hlt

variable (hb : Between t offset ts (.marker o :: (mid ++ .marker c :: us)))
include hb

theorem between_closerAt :
    Between t (closerAt offset o mid c).start (ts ++ [.marker o] ++ mid) (.marker c :: us) := by
  refine ⟨by rw [hb.1]; simp, ?_⟩
  rw [Marker.joinTokens_append, List.length_append, hb.after_marker.2]
  rfl

theorem inners_spanAt : inners (spanAt t offset o mid c).body = mid.filterMap Token.inner? := by
  have hsealed : Sealed mid := by
    have : tokens t = ts ++ [.marker o] ++ mid ++ .marker c :: us := by
      rw [hb.1]
      simp
    exact (Marker.sealed_left this).1.right
  rcases Span.body_between hb.after_marker (between_closerAt hb) with h | ⟨mid', rfl, h⟩
  · rw [spanAt, h, inners_joinTokens hsealed]
  · rw [spanAt, h, inners_joinTokens (@Sealed.right [_] _ hsealed)]
    rfl

/-- Behind the section, the text goes on after its closing marker, but perhaps for a newline. -/
theorem exists_after_spanAt :
    ∃ us', (us = us' ∨ us = .char '\n' :: us') ∧ (∃ ts', Between t (spanAt t offset o mid c).stop ts' us') ∧
      (closerAt offset o mid c).stop ≤ (spanAt t offset o mid c).stop ∧
      locateTokens (closerAt offset o mid c).stop us = locateTokens (spanAt t offset o mid c).stop us' := by
  have hafter := (between_closerAt hb).after_marker
  obtain ⟨us', hus, ts', hb'⟩ := Span.stop_between (m := ofInner o offset) hafter
  refine ⟨us', hus, ⟨ts', hb'⟩, ?_⟩
  rcases hus with rfl | rfl
  · have : (closerAt offset o mid c).stop = (spanAt t offset o mid c).stop := hafter.offset_eq hb'
    rw [this]
    exact ⟨Nat.le_refl _, rfl⟩
  · have : (spanAt t offset o mid c).stop = (closerAt offset o mid c).stop + 1 :=
      hb'.offset_eq hafter.after_token
    rw [this]
    exact ⟨Nat.le_succ _, rfl⟩

/-- A nested section is a symbol. -/
theorem straysFrom_section (he : Ends o c) (hn : Nested (mid.filterMap Token.inner?) inside)
    (hinside : ∀ i ∈ inside, ¬ IsAbout o i) (hapart : Apart inside)
    (h : ∀ stop us', (us = us' ∨ us = .char '\n' :: us') → (∃ ts', Between t stop ts' us') →
      StraysFrom t stop us' ss) :
    StraysFrom t offset (.marker o :: (mid ++ .marker c :: us)) (inside ++ ss) := by
  intro index
  obtain ⟨us', hus, hb', hle, hlocate⟩ := exists_after_spanAt hb
  obtain ⟨sss, hsss, rfl⟩ := h _ us' hus hb' (index + 1)
  refine ⟨inside :: sss, ?_, rfl⟩
  rw [findFrom_spanAt he hn hinside hle, hlocate, symbolsFrom_span start_spanAt]
  refine .cons ⟨?_, hapart⟩ hsss
  rw [inners_spanAt hb]
  exact hn

end Whole

theorem straysFrom_of_nested (hb : Between t offset ts us)
    (hn : Nested (us.filterMap Token.inner?) ss) (hs : Settled ss) : StraysFrom t offset us ss := by
  induction hl : us.length using Nat.strongRecOn generalizing us ts ss offset with
  | ind n ih =>
    cases us with
    | nil =>
      cases hn
      intro index
      refine ⟨[], ?_, rfl⟩
      rw [show (Span.findFrom t offset (locateTokens offset [])).1 = [] from rfl, symbolsFrom, hb.drop,
        Marker.joinTokens_nil, Marker.tokens_nil]
      exact .nil
    | cons k us =>
      have hlt : us.length < n := by
        rw [← hl]
        exact Nat.lt_succ_self _
      cases k with
      | char ch =>
        refine straysFrom_token (k := .char ch) hb ?_ (ih _ hlt hb.after_token hn hs rfl)
        refine congrArg Prod.fst (Span.findFrom_offset fun m hm => ?_)
        have : offset + 1 ≤ m.start := le_start_of_mem_locateTokens hm
        exact ⟨Nat.le_of_succ_le this, this⟩
      | marker i =>
        generalize his : us.filterMap Token.inner? = is at hn
        have hcons : (Token.marker i :: us).filterMap Token.inner? = i :: is := congrArg (i :: ·) his
        rw [hcons] at hn
        cases hn with
        | stray hn =>
          have hs' := List.pairwise_cons.1 hs
          rw [← his] at hn
          refine straysFrom_stray hb (fun hk => ?_) (ih _ hlt hb.after_token hn hs'.2 rfl)
          exact findCloser_stray rfl hk hn (say_locateTokens _ us) hs'.1
        | pair he hbody hinside hapart hn =>
          obtain ⟨mid, us', rfl, rfl, rfl⟩ := exists_split his
          refine straysFrom_section hb he hbody hinside hapart fun stop us'' hus hb'' => ?_
          obtain ⟨ts'', hb''⟩ := hb''
          have hs' := (List.pairwise_append.1 hs).2.1
          rw [List.length_append, List.length_cons] at hlt
          rcases hus with rfl | rfl
          · exact ih _ (by omega) hb'' hn hs' rfl
          · refine ih _ ?_ hb'' hn hs' rfl
            rw [List.length_cons] at hlt
            omega

/-- **The strays of a text are those of its symbols**, one after the other. -/
theorem exists_strays (hn : Nested (inners t) ss) (hs : Settled ss) :
    ∃ sss, List.Forall₂ Symbol.HasStrays (symbols t) sss ∧ sss.flatten = ss := by
  have h := straysFrom_of_nested (Between.zero t) hn hs 0
  rwa [← Span.find_eq] at h

end MailMerge.Section
