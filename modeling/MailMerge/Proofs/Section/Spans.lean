import MailMerge.Proofs.Marker.Scanned
import MailMerge.Proofs.Section.Dialect

/-!
# Sections inside a template text

The outermost sections of a template begin and end between tokens. So their bodies are templates
again, and the text in which placeholders stand for them has the markers around them.

**`template_body`**: the body of a section is a template.

**`fitsAside_setAside`**: the text with the sections set aside is of the dialect, but for its
placeholders.
-/

namespace MailMerge.Section

open Marker (Token tokens joinTokens charTokens Sealed Divisible)

variable {D : Dialect} {t : Text}

/-! ## Places between tokens -/

theorem text_ne_nil (k : Token) : k.text ≠ [] := by
  cases k <;> simp [Token.text, Marker.enclose, Marker.opening]

theorem eq_nil_of_joinTokens {ts : List Token} (h : joinTokens ts = []) : ts = [] := by
  cases ts with
  | nil => rfl
  | cons k ts =>
    rw [Marker.joinTokens_cons, List.append_eq_nil_iff] at h
    exact absurd h.1 (text_ne_nil k)

/-- The offset lies between tokens of the text: those before it, and those after it. -/
def Between (t : Text) (offset : Nat) (ts us : List Token) : Prop :=
  tokens t = ts ++ us ∧ (joinTokens ts).length = offset

namespace Between

variable {ts us ts' us' : List Token} {i j : Nat}

theorem eq_append (h : Between t i ts us) : t = joinTokens ts ++ joinTokens us := by
  rw [← Marker.joinTokens_append, ← h.1, Marker.joinTokens_tokens]

theorem zero (t : Text) : Between t 0 [] (tokens t) :=
  ⟨rfl, rfl⟩

/-- The tokens between two offsets. -/
theorem exists_mid (h : Between t i ts us) (h' : Between t j ts' us') (hij : i ≤ j) :
    ∃ mid, ts' = ts ++ mid ∧ us = mid ++ us' := by
  have he : ts ++ us = ts' ++ us' := h.1.symm.trans h'.1
  rcases List.append_eq_append_iff.1 he with ⟨mid, hm, hm'⟩ | ⟨mid, hm, hm'⟩
  · exact ⟨mid, hm, hm'⟩
  · have hlen : (joinTokens ts).length = (joinTokens ts').length + (joinTokens mid).length := by
      rw [hm, Marker.joinTokens_append, List.length_append]
    have hnil : joinTokens mid = [] := by
      rw [← List.length_eq_zero_iff]
      have h₁ := h.2
      have h₂ := h'.2
      omega
    obtain rfl := eq_nil_of_joinTokens hnil
    exact ⟨[], by simpa using hm.symm, by simpa using hm'.symm⟩

theorem drop (h : Between t i ts us) : t.drop i = joinTokens us := by
  rw [h.eq_append, ← h.2, List.drop_left]

theorem slice {mid : List Token} (h : Between t i ts (mid ++ us)) (h' : Between t j (ts ++ mid) us) :
    Text.slice t i j = joinTokens mid := by
  rw [Text.slice, h'.eq_append, ← h'.2, List.take_left, Marker.joinTokens_append, ← h.2,
    List.drop_left]

/-- A newline at the offset is a token. -/
theorem newline (h : Between t i ts us) (hn : t[i]? = some '\n') :
    ∃ us', us = .char '\n' :: us' ∧ Between t (i + 1) (ts ++ [.char '\n']) us' := by
  rw [h.eq_append, ← h.2, List.getElem?_append_right (Nat.le_refl _), Nat.sub_self] at hn
  cases us with
  | nil => simp at hn
  | cons k us =>
    cases k with
    | marker inner => simp [Token.text, Marker.enclose, Marker.opening] at hn
    | char c =>
      obtain rfl : c = '\n' := by simpa [Token.text] using hn
      refine ⟨us, rfl, ?_, ?_⟩
      · rw [h.1]
        simp
      · rw [← h.2]
        simp [Token.text]

theorem after_marker {inner : Text} (h : Between t i ts (.marker inner :: us)) :
    Between t (Marker.ofInner inner i).stop (ts ++ [.marker inner]) us := by
  refine ⟨by rw [h.1]; simp, ?_⟩
  rw [Marker.joinTokens_append, List.length_append, h.2]
  simp [Marker.ofInner, Token.text]

end Between

/-! ## Markers at their places -/

theorem between_of_mem_locateTokens {ts us : List Token} {m : Marker} {offset : Nat}
    (h : tokens t = ts ++ us) (ho : (joinTokens ts).length = offset)
    (hm : m ∈ Marker.locateTokens offset us) :
    ∃ ts' inner us', Between t m.start ts' (.marker inner :: us') ∧
      m = Marker.ofInner inner m.start := by
  induction us generalizing ts offset with
  | nil => simp [Marker.locateTokens] at hm
  | cons k us ih =>
    have h' : tokens t = (ts ++ [k]) ++ us := by simpa using h
    cases k with
    | char c =>
      refine ih h' ?_ hm
      simp [Token.text, ← ho]
    | marker inner =>
      rcases List.mem_cons.1 hm with rfl | hm
      · exact ⟨ts, inner, us, ⟨h, ho⟩, rfl⟩
      · refine ih h' ?_ hm
        simp [Token.text, ← ho]

theorem between_of_mem_scan {m : Marker} (hm : m ∈ Marker.scan t) :
    ∃ ts inner us, Between t m.start ts (.marker inner :: us) ∧ m = Marker.ofInner inner m.start := by
  rw [Marker.scan_eq_locateTokens] at hm
  exact between_of_mem_locateTokens (List.nil_append _).symm rfl hm

/-- The marker of the text says something of the dialect, and its text is that of its token. -/
theorem Dialect.Template.of_mem_scan (ht : D.Template t) {m : Marker} (hm : m ∈ Marker.scan t) :
    ∃ inner, D.admits inner ∧ Text.FreeOf Marker.closing inner ∧ .marker inner ∈ tokens t ∧
      m = Marker.ofInner inner m.start := by
  obtain ⟨ts, inner, us, hb, he⟩ := between_of_mem_scan hm
  have hmem : Token.marker inner ∈ tokens t := by
    rw [hb.1]
    simp
  exact ⟨inner, ht.admits hmem, (Marker.sealed_left hb.1).2, hmem, he⟩

theorem le_start_of_mem_locateTokens {us : List Token} {m : Marker} {offset : Nat}
    (hm : m ∈ Marker.locateTokens offset us) : offset ≤ m.start := by
  induction us generalizing offset with
  | nil => simp [Marker.locateTokens] at hm
  | cons k us ih =>
    cases k with
    | char c => exact Nat.le_of_succ_le (ih hm)
    | marker inner =>
      rcases List.mem_cons.1 hm with rfl | hm
      · exact Nat.le_refl _
      · exact Nat.le_trans (Nat.le_add_right ..) (ih hm)

/-! ## Spans at their places -/

theorem mem_of_findCloser {opener closer : Marker} {depth d : Int} {ms : List Marker}
    (h : findCloser opener depth ms = (some closer, d)) : closer ∈ ms := by
  induction ms generalizing depth with
  | nil => simp [findCloser] at h
  | cons m ms ih =>
    rw [findCloser] at h
    split at h
    · exact List.mem_cons_of_mem m (ih h)
    · split at h
      · split at h
        · simp only [Prod.mk.injEq, Option.some.injEq] at h
          exact h.1 ▸ List.mem_cons_self
        · exact List.mem_cons_of_mem m (ih h)
      · exact List.mem_cons_of_mem m (ih h)

namespace Span

/-- The span goes from a marker that starts a section to a marker behind it. -/
def IsBetween (t : Text) (s : Span) : Prop :=
  ∃ opener ∈ Marker.scan t, ∃ closer ∈ Marker.scan t,
    opener.kind = .sectionStart ∧ opener.stop ≤ closer.start ∧ s = between t opener closer

/-- The spans follow each other from an offset on. -/
def Placed (t : Text) : (offset : Nat) → List Span → Prop
  | _, [] => True
  | offset, s :: spans => offset ≤ s.start ∧ s.IsBetween t ∧ Placed t s.stop spans

theorem opener_between (t : Text) (opener closer : Marker) :
    (between t opener closer).opener = opener ∧
      (between t opener closer).start = opener.start := by
  unfold between
  dsimp only
  split <;> exact ⟨rfl, rfl⟩

theorem Placed.mono {offset offset' : Nat} {spans : List Span} (h : Placed t offset' spans)
    (hle : offset ≤ offset') : Placed t offset spans := by
  cases spans with
  | nil => trivial
  | cons s spans => exact ⟨Nat.le_trans hle h.1, h.2⟩

theorem placed_findFrom {ms : List Marker} (hm : ms.Sublist (Marker.scan t)) (offset : Nat) :
    Placed t offset (findFrom t offset ms).1 := by
  induction ms generalizing offset with
  | nil => trivial
  | cons m ms ih =>
    have hms : ms.Sublist (Marker.scan t) := (List.sublist_cons_self m ms).trans hm
    unfold findFrom
    split
    · next hstart =>
      split
      · next closer d hc =>
        have hmem := mem_of_findCloser hc
        have hle : m.stop ≤ closer.start :=
          List.rel_of_pairwise_cons ((Marker.pairwise_scan t).sublist hm) hmem
        refine ⟨?_, ⟨m, hm.subset List.mem_cons_self, closer, hms.subset hmem, hstart.1, hle, rfl⟩,
          ih hms _⟩
        rw [(opener_between t m closer).2]
        exact hstart.2
      · have hlt : m.start ≤ m.stop := by
          obtain ⟨_, inner, _, _, he⟩ := between_of_mem_scan (hm.subset List.mem_cons_self)
          rw [he]
          exact Nat.le_add_right ..
        exact (ih hms m.stop).mono (Nat.le_trans hstart.2 hlt)
    · exact ih hms _

theorem placed_find (t : Text) : Placed t 0 (find t).1 :=
  placed_findFrom List.filter_sublist 0

theorem Placed.isBetween {offset : Nat} {spans : List Span} (h : Placed t offset spans) {s : Span}
    (hs : s ∈ spans) : s.IsBetween t := by
  induction spans generalizing offset with
  | nil => cases hs
  | cons s' spans ih =>
    rcases List.mem_cons.1 hs with rfl | hs
    · exact h.2.1
    · exact ih h.2.2 hs

theorem isBetween_of_mem_find {s : Span} (hs : s ∈ (find t).1) : s.IsBetween t :=
  (placed_find t).isBetween hs

/-- The body of a span is what stands between its markers, but perhaps for a newline. -/
theorem body_between {m closer : Marker} {c : Text} {ts mid us : List Token}
    (ho : Between t m.stop ts (mid ++ .marker c :: us))
    (hc : Between t closer.start (ts ++ mid) (.marker c :: us)) :
    (between t m closer).body = joinTokens mid ∨
      ∃ mid', mid = .char '\n' :: mid' ∧ (between t m closer).body = joinTokens mid' := by
  have hslice : Text.slice t m.stop closer.start = joinTokens mid := ho.slice hc
  by_cases hline : (opensLine t m && closesLine t closer) = true
  · have hn : t[m.stop]? = some '\n' := by
      simp only [opensLine, Bool.and_eq_true, beq_iff_eq] at hline
      exact hline.1.2
    obtain ⟨us', hus, -⟩ := ho.newline hn
    obtain ⟨mid', rfl⟩ : ∃ mid', mid = .char '\n' :: mid' := by
      cases mid with
      | nil => simp at hus
      | cons k mid =>
        obtain ⟨rfl, -⟩ := List.cons.inj hus
        exact ⟨mid, rfl⟩
    refine .inr ⟨mid', rfl, ?_⟩
    simp only [between, if_pos hline, hslice]
    simp [Token.text]
  · refine .inl ?_
    simp only [between, if_neg hline, hslice]

/-- Behind a span the text goes on after the closing marker, but perhaps for a newline. -/
theorem stop_between {m closer : Marker} {ts us : List Token} (hc : Between t closer.stop ts us) :
    ∃ us', (us = us' ∨ us = .char '\n' :: us') ∧ ∃ ts', Between t (between t m closer).stop ts' us' := by
  by_cases hline : (opensLine t m && closesLine t closer) = true
  · simp only [between, if_pos hline]
    split
    · next hlt =>
      have hn : t[closer.stop]? = some '\n' := by
        simp only [closesLine, Bool.and_eq_true, Bool.or_eq_true, beq_iff_eq,
          decide_eq_true_eq] at hline
        rcases hline.2.2 with h | h
        · omega
        · exact h
      obtain ⟨us', rfl, hb⟩ := hc.newline hn
      exact ⟨us', .inr rfl, _, hb⟩
    · exact ⟨us, .inl rfl, _, hc⟩
  · simp only [between, if_neg hline]
    exact ⟨us, .inl rfl, _, hc⟩

/-- The tokens of a text, cut at a span: before it, its opening marker, between its markers, its
closing marker, and behind it. -/
structure Parts (t : Text) (s : Span) where
  before : List Token
  opener : Text
  mid : List Token
  closer : Text
  rest : List Token
  /-- The tokens of the text before the end of the span. -/
  upTo : List Token
  start : Between t s.start before (.marker opener :: (mid ++ .marker closer :: rest))
  stop : ∃ us, Between t s.stop upTo us
  opener_eq : s.opener = Marker.ofInner opener s.start
  body : s.body = joinTokens mid ∨ ∃ mid', mid = .char '\n' :: mid' ∧ s.body = joinTokens mid'

theorem IsBetween.exists_parts {s : Span} (h : s.IsBetween t) : Nonempty (Parts t s) := by
  obtain ⟨opener, ho, closer, hc, -, hle, rfl⟩ := h
  obtain ⟨ts, i, us, hbo, heo⟩ := between_of_mem_scan ho
  obtain ⟨ts', j, us', hbc, hec⟩ := between_of_mem_scan hc
  have hbo' := hbo.after_marker
  have hbc' := hbc.after_marker
  rw [← heo] at hbo'
  rw [← hec] at hbc'
  obtain ⟨mid, rfl, rfl⟩ := hbo'.exists_mid hbc hle
  have hopener := opener_between t opener closer
  obtain ⟨us'', -, upTo, hstop⟩ := stop_between (m := opener) hbc'
  exact ⟨⟨ts, i, mid, j, us', upTo, by rwa [hopener.2], ⟨us'', hstop⟩, by rwa [hopener.1, hopener.2],
    body_between hbo' hbc⟩⟩

variable {s : Span}

/-- The tokens between an offset and the section that comes next. -/
theorem IsBetween.exists_gap {offset : Nat} {ts us : List Token} (hs : s.IsBetween t)
    (hb : Between t offset ts us) (hle : offset ≤ s.start) :
    ∃ gap opener rest, tokens t = ts ++ gap ++ .marker opener :: rest ∧
      Text.slice t offset s.start = joinTokens gap ∧ ∃ ts' us', Between t s.stop ts' us' := by
  obtain ⟨p⟩ := hs.exists_parts
  obtain ⟨us', hstop⟩ := p.stop
  obtain ⟨gap, hgap, hus⟩ := hb.exists_mid p.start hle
  have hstart := p.start
  rw [hgap] at hstart
  rw [hus] at hb
  exact ⟨gap, _, _, hstart.1, hb.slice hstart, p.upTo, us', hstop⟩

/-- **The body of a section is a template.** -/
theorem template_body (ht : D.Template t) (hs : s.IsBetween t) : D.Template s.body := by
  obtain ⟨p⟩ := hs.exists_parts
  have htok : tokens t = (p.before ++ .marker p.opener :: p.mid) ++ .marker p.closer :: p.rest := by
    rw [p.start.1]
    simp
  have hseal : Sealed p.mid := (Marker.sealed_append_marker_iff.1 (Marker.sealed_left htok).1).2.2
  have hfit : D.Fits p.mid := by
    rw [Dialect.Template, htok] at ht
    exact Dialect.divisible_fits.after (Dialect.divisible_fits.left ht)
  rcases p.body with hb | ⟨mid', hm, hb⟩
  · rw [hb, Dialect.Template, Marker.tokens_joinTokens hseal]
    exact hfit
  · rw [hm] at hseal hfit
    rw [← List.singleton_append] at hseal hfit
    rw [hb, Dialect.Template, Marker.tokens_joinTokens hseal.right]
    exact Dialect.divisible_fits.right hfit

/-- The opening marker of a section says something of the dialect. -/
theorem admits_opener (ht : D.Template t) (hs : s.IsBetween t) :
    ∃ inner, D.admits inner ∧ s.opener = Marker.ofInner inner s.start ∧
      (Marker.classify inner).kind = .sectionStart := by
  obtain ⟨p⟩ := hs.exists_parts
  have hk : s.opener.kind = .sectionStart := by
    obtain ⟨opener, -, closer, -, hk, -, he⟩ := hs
    rw [he, (opener_between t opener closer).1, hk]
  refine ⟨p.opener, ht.admits (by rw [p.start.1]; simp), p.opener_eq, ?_⟩
  rw [← hk, p.opener_eq]
  rfl

end Span

/-! ## Sections set aside -/

/-- The digits and the end of a placeholder. -/
def IsPlaceholderTail (x : Text) : Prop :=
  ∃ digits, digits ≠ [] ∧ (∀ c ∈ digits, Text.isDecimalDigit c) ∧ x = digits ++ [Span.placeholderEnd]

namespace Dialect

/-- What has to follow a character where sections are set aside. -/
def followsAside (D : Dialect) (c : Char) (x : Text) : Prop :=
  D.follows c x ∨ (c = Span.placeholderStart ∧ IsPlaceholderTail x)

/-- The tokens are of the dialect, but for placeholders. -/
def FitsAside (D : Dialect) (ts : List Token) : Prop :=
  Guarded D.followsAside ts ∧ ∀ k ∈ ts, ∀ inner, k = .marker inner → D.admits inner

theorem divisible_fitsAside : Divisible D.FitsAside :=
  (divisible_guarded D.followsAside).and (Marker.divisible_forall _)

theorem Fits.aside {ts : List Token} (h : D.Fits ts) : D.FitsAside ts :=
  ⟨h.1.mono fun _ _ => .inl, h.2⟩

theorem fitsAside_placeholder (index : Nat) : D.FitsAside (charTokens (Span.placeholder index)) := by
  have htail : D.FitsAside (charTokens (Text.ofNat index ++ [Span.placeholderEnd])) := by
    exact (fits_charTokens ((Text.allPlain_ofNat index).append (by decide))).aside
  refine ⟨⟨⟨_, .inr ⟨rfl, Text.ofNat index, Text.ofNat_ne_nil index,
    fun c hc => Text.isDecimalDigit_of_mem_ofNat hc, rfl⟩, List.prefix_rfl⟩, htail.1⟩, ?_⟩
  rintro k hk inner rfl
  exact absurd hk (marker_notMem_charTokens inner _)

theorem plain_placeholder (index : Nat) : ∀ c ∈ Span.placeholder index, c ≠ '{' := by
  intro c hc
  rw [Span.placeholder, List.cons_append] at hc
  rcases List.mem_cons.1 hc with rfl | hc
  · decide
  · rcases List.mem_append.1 hc with hc | hc
    · exact (Text.allPlain_ofNat index c hc).1
    · obtain rfl := List.mem_singleton.1 hc
      decide

theorem fitsAside_setAside_from (ht : D.Template t) {offset : Nat} {spans : List Span}
    (hp : Span.Placed t offset spans) {ts us : List Token} (hb : Between t offset ts us)
    (index : Nat) : D.FitsAside (tokens (Span.setAside t index offset spans)) := by
  induction spans generalizing offset ts us index with
  | nil =>
    rw [Span.setAside, hb.drop, Marker.tokens_right hb.1]
    rw [Template, hb.1] at ht
    exact (divisible_fits.right ht).aside
  | cons s spans ih =>
    obtain ⟨hle, hs, hrest⟩ := hp
    obtain ⟨gap, opener, rest, htok, hslice, ts', us', hstop⟩ := hs.exists_gap hb hle
    have hseal : Sealed gap := (Marker.sealed_left htok).1.right
    have hfit : D.Fits gap := by
      rw [Template, htok] at ht
      exact divisible_fits.right (divisible_fits.left ht)
    rw [Span.setAside, hslice, List.append_assoc, Marker.tokens_joinTokens_append hseal,
      Marker.tokens_plain_append (plain_placeholder index)]
    exact divisible_fitsAside.append hfit.aside
      (divisible_fitsAside.append (fitsAside_placeholder index) (ih hrest hstop (index + 1)))

/-- **The text with its sections set aside is of the dialect, but for the placeholders.** -/
theorem fitsAside_setAside (ht : D.Template t) :
    D.FitsAside (tokens (Span.setAside t 0 0 (Span.find t).1)) :=
  fitsAside_setAside_from ht (Span.placed_find t) (Between.zero t) 0

end Dialect
end MailMerge.Section
