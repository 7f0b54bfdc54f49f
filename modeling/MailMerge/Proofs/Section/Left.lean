import MailMerge.Proofs.Format.Calm
import MailMerge.Proofs.Section.Inert
import MailMerge.Proofs.Section.Reference
import MailMerge.Proofs.Section.Strays
import Mathlib.Data.List.Flatten

/-!
# What is left of a text with nested sections

With calm data, whatever is written in place of a field is calm, in every scope. So templates of the
calm dialect are rendered to inert texts.

When a text with nested sections is rendered with calm data, its sections are gone: the markers that are
left are strays of it, in an order in which none of them ends a section that another one starts.

**`inert_of_render`**: what a template of the calm dialect is rendered to is inert.

**`leaves_of_render`**: a text with nested sections leaves its strays.
-/

namespace MailMerge

open Merging (Agree)
open Section (calm sameInert CalmMarker Inert)

/-- What a step that agrees with itself gives is related to itself. -/
theorem Merging.Agree.of_gives {ι α : Type} {R : α → α → Prop} {x : Merging ι α} {a : α}
    (h : Agree R x x) (ha : x.Gives a) : R a a := by
  obtain ⟨log, hx⟩ := ha
  exact h.of_ok hx hx

variable {ι : Type} {settings : Settings} {c : Context}

/-- The same result in both runs, with a property. -/
abbrev SameWith {α : Type} (P : α → Prop) (a b : α) : Prop :=
  a = b ∧ P a

theorem agree_ofYields {α : Type} {P : α → Prop} {x : Except Fault α} (h : Yields P x) :
    Agree (SameWith P) (Merging.ofFault x : Merging ι α) (Merging.ofFault x : Merging ι α) :=
  Merging.agree_ofFault fun a ha => ⟨rfl, h a ha⟩

theorem agree_writeValue (hs : Text.Unopened settings.currencySymbol) {v : Value} (hv : v.Calm)
    (path : Text) (format : Option Text) :
    Agree (SameWith Text.Calm) (Field.writeValue settings path format v : Merging ι Text)
      (Field.writeValue settings path format v : Merging ι Text) := by
  have hplain := Value.yields_toPlain v hv
  unfold Field.writeValue
  split
  · next t ht =>
    refine Merging.agree_pure ⟨rfl, ?_⟩
    unfold Value.format at ht
    split at ht
    · cases hp : v.toPlain with
      | error f => rw [hp] at ht; cases ht
      | ok u =>
        rw [hp] at ht
        obtain rfl := Except.ok.inj ht
        exact hplain u hp
    · split at ht
      · next f hf =>
        cases hp : f.apply settings.currencySymbol v with
        | error e => rw [hp] at ht; cases ht
        | ok u =>
          rw [hp] at ht
          obtain rfl := Except.ok.inj ht
          exact Format.yields_apply hs hv f u hp
      · cases ht
  · exact Merging.agree_fail _ _
  · exact (Merging.agree_report (R := fun _ _ => True) trivial _ _ _ _).bind fun _ _ _ =>
      agree_ofYields hplain

theorem agree_renderField (hs : Text.Unopened settings.currencySymbol) (hc : c.Calm) {spec : FieldSpec}
    (hd : ∀ t ∈ spec.default, Text.Calm t) :
    Agree (SameWith Text.Calm) (Field.render settings c spec : Merging ι Text)
      (Field.render settings c spec : Merging ι Text) := by
  unfold Field.render
  refine (agree_ofYields (hc.yields_resolve spec.path)).bind ?_
  rintro v _ ⟨rfl, hv⟩
  split
  · cases hdef : spec.default with
    | none => exact Merging.agree_fail _ _
    | some t => exact Merging.agree_pure ⟨rfl, hd t hdef⟩
  · exact agree_writeValue hs hv _ _

/-- A marker of the calm dialect is left as it is, or a calm text is written in its place. -/
theorem replace_eq_or_calm (hs : Text.Unopened settings.currencySymbol) (hc : c.Calm) {inner v : Text}
    (hi : CalmMarker inner) (h : (Field.replace settings c true inner).Gives v) :
    (v = Marker.enclose inner ∧ ¬ Field.Asked inner) ∨ Text.Calm v := by
  by_cases hk : (Marker.classify inner).kind = .field
  · by_cases hp : (FieldSpec.parse inner).path = []
    · refine .inl ⟨?_, fun ha => ha.2 hp⟩
      simp only [Field.replace, hk, if_pos hp, Merging.gives_pure_iff] at h
      exact h.symm
    · refine .inr ?_
      simp only [Field.replace, hk, if_neg hp] at h
      exact ((agree_renderField hs hc (hi.default ⟨hk, hp⟩)).of_gives h).2
  · exact .inl ⟨Section.eq_enclose_of_gives_replace hk h, fun ha => hk ha.1⟩

/-- **An inert text is written in place of a marker of the calm dialect.** -/
theorem agree_replace (hs : Text.Unopened settings.currencySymbol) (hc : c.Calm) {inner : Text}
    (hi : CalmMarker inner) :
    Agree sameInert.writes (Field.replace settings c true inner)
      (Field.replace settings c true inner) := by
  refine Merging.agree_self fun v log hv => ⟨rfl, ?_⟩
  rcases replace_eq_or_calm hs hc hi (Merging.Gives.of_ok hv) with ⟨rfl, hn⟩ | hcalm
  · exact Section.inert_enclose (hi.inert hn)
  · exact Section.inert_of_calm hcalm

theorem agree_calmRecords (hc : c.Calm) (opener : Marker) (nested : Bool) :
    Agree (SameWith Value.AllCalm)
      (Section.records settings opener c nested : Merging ι (List Value))
      (Section.records settings opener c nested : Merging ι (List Value)) := by
  unfold Section.records Section.bind
  refine Agree.bind (R := SameWith Value.AllCalm) ?_ ?_
  · refine (agree_ofYields (Section.yields_candidates hc opener _)).bind ?_
    rintro vs _ ⟨rfl, hvs⟩
    split
    · next items hf =>
      obtain ⟨v, hv, hr⟩ := List.exists_of_findSome?_eq_some hf
      exact Merging.agree_pure
        ⟨rfl, Section.records?_calm (Value.allCalm_iff.1 hvs v hv) hr⟩
    · exact Merging.agree_fail _ _
  · rintro items _ ⟨rfl, hitems⟩
    split
    · exact (Merging.agree_report (R := fun _ _ => True) trivial _ _ _ _).bind fun _ _ _ =>
        Merging.agree_pure ⟨rfl, hitems⟩
    · exact Merging.agree_pure ⟨rfl, hitems⟩

/-- A calm context beside itself. -/
def calmLockstep (hs : Text.Unopened settings.currencySymbol) :
    Section.Lockstep settings calm sameInert where
  scopes c c' := c = c' ∧ c.Calm
  condition := by
    rintro c _ inner ⟨rfl, -⟩ - -
    rfl
  field := by
    rintro c _ inner ⟨rfl, hc⟩ hi
    exact agree_replace hs hc hi
  records := by
    rintro ι c _ inner ⟨rfl, hc⟩ - - start nested
    refine (agree_calmRecords hc _ nested).mono ?_
    rintro records _ ⟨rfl, hr⟩
    exact List.forall₂_same.2 fun v hv k => ⟨rfl, hc.forRow (Value.allCalm_iff.1 hr v hv) k⟩

/-- **What a template of the calm dialect is rendered to is inert.** -/
theorem Section.inert_of_render (hs : Text.Unopened settings.currencySymbol) (hc : c.Calm)
    {nested : Bool} {t u : Text} (ht : calm.Template t) (h : (render settings c nested t).Gives u) :
    Inert u :=
  (inert_of_written ((agree_render (calmLockstep hs) ⟨rfl, hc⟩ nested ht).of_gives h)).2

end MailMerge

namespace MailMerge.Section

open Marker (Token tokens joinTokens charTokens Sealed)
open Merging (Gives gives_bind_iff gives_pure_iff gives_mapM_iff)

variable {settings : Settings} {c : Context} {t u : Text} {ss : List Text}

/-! ## Markers of inert texts -/

theorem Inert.sealed (h : Inert t) : Sealed (tokens t) := by
  obtain ⟨ts, rfl, hg, hm⟩ := h
  have := sealed_of_guarded hg fun inner hi => (hm inner hi).free
  rwa [Marker.tokens_joinTokens this]

theorem inners_append_of_sealed (h : Sealed (tokens t)) (u : Text) :
    inners (t ++ u) = inners t ++ inners u := by
  have := Marker.tokens_joinTokens_append h u
  rw [Marker.joinTokens_tokens] at this
  rw [inners, this, List.filterMap_append]
  rfl

theorem filterMap_charTokens (a : Text) : (charTokens a).filterMap Token.inner? = [] := by
  refine List.filterMap_eq_nil_iff.2 fun k hk => ?_
  obtain ⟨ch, -, rfl⟩ := List.mem_map.1 hk
  rfl

theorem inners_of_calm (h : Text.Calm t) : inners t = [] := by
  have hs := sealed_of_guarded (guarded_of_calm h) fun inner hi =>
    absurd hi (marker_notMem_charTokens inner t)
  have := inners_joinTokens hs
  rw [Marker.joinTokens_charTokens] at this
  rw [this, filterMap_charTokens]

theorem inners_enclose {inner : Text} (h : Text.FreeOf Marker.closing inner) :
    inners (Marker.enclose inner) = [inner] := by
  have := Marker.tokens_enclose h []
  rw [List.append_nil, Marker.tokens_nil] at this
  rw [inners, this]
  rfl

theorem inners_nil : inners [] = [] := by
  rw [inners, Marker.tokens_nil]
  rfl

theorem inners_singleton (ch : Char) : inners [ch] = [] := by
  have hn : Marker.next? [ch] = none := by
    refine Marker.next?_eq_none_iff.2 fun a inner b he => ?_
    have := congrArg List.length he
    simp only [Marker.enclose, Marker.opening, Marker.closing, List.length_append, List.length_cons] at this
    omega
  rw [inners, Marker.tokens_of_next?_none hn]
  rfl

/-- The last newline is no marker. -/
theorem inners_dropLast (h : Inert t) (hn : t.getLast? = some '\n') : inners t.dropLast = inners t := by
  obtain ⟨u, rfl⟩ := List.getLast?_eq_some_iff.1 hn
  have hs := (h.dropLast hn).sealed
  rw [List.dropLast_concat] at hs ⊢
  rw [inners_append_of_sealed hs, inners_singleton, List.append_nil]

/-! ## Texts that leave strays -/

/-- The markers of the text are among the strays, and none of them ends a section that one before it
starts. -/
structure Leaves (t : Text) (ss : List Text) : Prop where
  subset : inners t ⊆ ss
  settled : Settled (inners t)

theorem Leaves.of_apart (hs : inners t ⊆ ss) (h : Apart ss) : Leaves t ss :=
  ⟨hs, (h.subset hs).settled⟩

/-- Texts that leave strays one after the other leave the strays of them all. -/
theorem leaves_flatten {texts : List Text} {sss : List (List Text)} (h : List.Forall₂ Leaves texts sss) :
    texts.flatMap inners ⊆ sss.flatten ∧ (Settled sss.flatten → Settled (texts.flatMap inners)) := by
  induction h with
  | nil => exact ⟨List.Subset.refl _, id⟩
  | @cons t ss texts sss ht _ ih =>
    rw [List.flatMap_cons, List.flatten_cons]
    refine ⟨List.append_subset.2 ⟨List.subset_append_of_subset_left _ ht.subset,
      List.subset_append_of_subset_right _ ih.1⟩, fun hs => ?_⟩
    obtain ⟨-, hrest, hcross⟩ := List.pairwise_append.1 hs
    exact List.pairwise_append.2 ⟨ht.settled, ih.2 hrest,
      fun i hi j hj => hcross i (ht.subset hi) j (ih.1 hj)⟩

/-! ## Symbols -/

/-- What may be put for a symbol. -/
def Symbol.Puts : Symbol → Text → Prop
  | .token (.char ch), y => y = [ch]
  | .token (.marker inner), y => Inert y ∧ (inners y).Sublist [inner]
  | .span s _, y => Inert y ∧ ∀ ss, Nested (inners s.body) ss → Apart ss → inners y ⊆ ss

theorem Symbol.Puts.leaves {x : Symbol} {y : Text} (h : x.Puts y) (hs : x.HasStrays ss) :
    Leaves y ss := by
  cases x with
  | token k =>
    cases k with
    | char ch =>
      obtain rfl : ss = [] := hs
      obtain rfl : y = [ch] := h
      refine ⟨?_, ?_⟩
      · rw [inners_singleton]
        exact List.Subset.refl _
      · rw [inners_singleton]
        exact .nil
    | marker inner =>
      obtain rfl : ss = [inner] := hs
      exact ⟨h.2.subset, List.Pairwise.sublist h.2 (List.pairwise_singleton _ inner)⟩
  | span s index => exact .of_apart (h.2 ss hs.1 hs.2) hs.2

/-- A brace outside markers meets no other one. -/
theorem dropStart?_of_fitsAside {ch : Char} {xs : List Symbol} {ys : List Text}
    (hfit : calm.FitsAside ((Symbol.token (.char ch) :: xs).flatMap Symbol.tokensAside))
    (hno : ch ≠ Span.placeholderStart) (h : List.Forall₂ Symbol.Puts xs ys) :
    Text.dropStart? Marker.opening (ch :: ys.flatten) = none := by
  by_cases hb : ch = '{'
  · obtain ⟨⟨x, hx, hp⟩, -⟩ := hfit.1
    obtain ⟨d, rfl, hd, -, hplace⟩ : ∃ d, x = [d] ∧ d ≠ '{' ∧ d ≠ '\n' ∧ d ≠ Span.placeholderStart := by
      have hx := (hx.resolve_right fun h => hno h.1).2
      rwa [if_pos hb] at hx
    -- The character that follows the brace is a symbol of its own.
    cases h with
    | nil => cases List.prefix_nil.1 hp
    | @cons x y xs ys hx hxs =>
      obtain ⟨z, hz⟩ := hp
      cases x with
      | token k =>
        obtain ⟨rfl, -⟩ := List.cons.inj hz
        obtain rfl : y = [d] := hx
        exact Marker.dropStart?_opening_of_second_ne hd _
      | span s index =>
        obtain ⟨hk, -⟩ := List.cons.inj hz
        exact absurd (Token.char.inj hk) hplace
  · exact Marker.dropStart?_opening_of_ne hb _

/-- The markers of what is put for symbols are the markers of what is put for each of them. -/
theorem inners_flatten {xs : List Symbol} {ys : List Text}
    (hfit : calm.FitsAside (xs.flatMap Symbol.tokensAside))
    (hno : ∀ ch, .token (.char ch) ∈ xs → ch ≠ Span.placeholderStart)
    (h : List.Forall₂ Symbol.Puts xs ys) : inners ys.flatten = ys.flatMap inners := by
  induction h with
  | nil => exact inners_nil
  | @cons x y xs ys hx hxs ih =>
    have ih := ih (by
      rw [List.flatMap_cons] at hfit
      exact Dialect.divisible_fitsAside.right hfit) fun ch hc => hno ch (List.mem_cons_of_mem x hc)
    rw [List.flatten_cons, List.flatMap_cons, ← ih]
    cases x with
    | token k =>
      cases k with
      | marker inner => exact inners_append_of_sealed hx.1.sealed _
      | char ch =>
        obtain rfl : y = [ch] := hx
        rw [inners_singleton, List.nil_append, inners, List.singleton_append,
          Marker.tokens_cons (dropStart?_of_fitsAside hfit (hno ch List.mem_cons_self) hxs)]
        rfl
    | span s index => exact inners_append_of_sealed hx.1.sealed _

/-! ## Rendering -/

theorem inert_flatten {ys : List Text} (h : ∀ y ∈ ys, Inert y) :
    Inert ys.flatten ∧ inners ys.flatten = ys.flatMap inners := by
  induction ys with
  | nil => exact ⟨inert_nil, inners_nil⟩
  | cons y ys ih =>
    have hy := h y List.mem_cons_self
    obtain ⟨hi, he⟩ := ih fun z hz => h z (List.mem_cons_of_mem y hz)
    refine ⟨hy.append hi, ?_⟩
    rw [List.flatten_cons, inners_append_of_sealed hy.sealed, he, List.flatMap_cons]

theorem inners_trimmed (h : Inert t) (s : Span) : Inert (s.trimmed t) ∧ inners (s.trimmed t) = inners t := by
  unfold Span.trimmed
  split
  · next hn => exact ⟨h.dropLast hn.2, inners_dropLast h hn.2⟩
  · exact ⟨h, rfl⟩

/-- What is put for the symbols that are left, one by one. -/
theorem gives_renderSymbols_iff {nested : Bool} {xs : List Symbol} :
    (renderSymbols settings c nested xs).Gives u ↔
      ∃ ys, List.Forall₂ (fun x y => ∃ f, (fillSymbol settings c x).Gives f ∧
        (putFilled settings c nested f).Gives y) xs ys ∧ ys.flatten = u := by
  simp only [renderSymbols, gives_bind_iff, gives_pure_iff, gives_mapM_iff]
  constructor
  · rintro ⟨fs, hfs, ys, hys, rfl⟩
    refine ⟨ys, ?_, rfl⟩
    induction hfs generalizing ys with
    | nil =>
      cases hys
      exact .nil
    | cons hf _ ih =>
      cases hys with
      | cons hy hys => exact .cons ⟨_, hf, hy⟩ (ih _ hys)
  · rintro ⟨ys, hys, rfl⟩
    induction hys with
    | nil => exact ⟨[], .nil, [], .nil, rfl⟩
    | @cons x y xs ys hx _ ih =>
      obtain ⟨f, hf, hy⟩ := hx
      obtain ⟨fs, hfs, zs, hzs, hz⟩ := ih
      exact ⟨f :: fs, .cons hf hfs, y :: zs, .cons hy hzs, by rw [List.flatten_cons, List.flatten_cons, hz]⟩

section Calm

variable (hsymbol : Text.Unopened settings.currencySymbol)
include hsymbol

theorem noPlaceholderIn_of_calm (hc : c.Calm) (ht : calm.Template t) : NoPlaceholderIn settings c t := by
  intro inner hi _ x hx
  have hmem := mem_tokens_of_mem_symbols ((remaining_sublist c.resolve t).subset hi)
  exact placeholderStart_notMem_of_inert ((agree_replace hsymbol hc (ht.admits hmem)).of_gives hx).2

theorem puts_marker (hc : c.Calm) {inner v : Text} (hi : CalmMarker inner)
    (h : (Field.replace settings c true inner).Gives v) : Symbol.Puts (.token (.marker inner)) v := by
  refine ⟨((agree_replace hsymbol hc hi).of_gives h).2, ?_⟩
  rcases replace_eq_or_calm hsymbol hc hi h with ⟨rfl, -⟩ | hcalm
  · rw [inners_enclose hi.free]
  · rw [inners_of_calm hcalm]
    exact List.nil_sublist _

/-- A section with calm records leaves strays of its body. -/
theorem gives_renderSpan {nested : Bool} {s : Span} {y : Text} (hc : c.Calm) (hbody : calm.Template s.body)
    (hleaves : ∀ {c : Context} {u : Text}, c.Calm → (render settings c true s.body).Gives u →
      ∀ ss, Nested (inners s.body) ss → Settled ss → Leaves u ss)
    (h : (renderSpan settings c nested s).Gives y) :
    Inert y ∧ ∀ ss, Nested (inners s.body) ss → Apart ss → inners y ⊆ ss := by
  rw [renderSpan_eq] at h
  simp only [gives_bind_iff, gives_pure_iff, gives_mapM_iff] at h
  obtain ⟨records, hrecords, ys, hys, rfl⟩ := h
  have hcalm := Value.allCalm_iff.1 ((agree_calmRecords hc s.opener nested).of_gives hrecords).2
  have hrow : ∀ y ∈ ys, ∃ c : Context, c.Calm ∧ (render settings c true s.body).Gives y := by
    intro y hy
    obtain ⟨p, hp, hg⟩ := Merging.exists_of_forall₂ hys.flip hy
    exact ⟨_, hc.forRow (hcalm _ (List.fst_mem_of_mem_zipIdx hp)) _, hg⟩
  have hinert : ∀ y ∈ ys, Inert y := by
    intro y hy
    obtain ⟨c', hc', hg⟩ := hrow y hy
    exact inert_of_render hsymbol hc' hbody hg
  obtain ⟨hi, he⟩ := inert_flatten hinert
  obtain ⟨hi', he'⟩ := inners_trimmed hi s
  refine ⟨hi', fun ss hn ha => ?_⟩
  rw [he', he]
  intro i hi
  obtain ⟨y, hy, hi⟩ := List.mem_flatMap.1 hi
  obtain ⟨c', hc', hg⟩ := hrow y hy
  exact (hleaves hc' hg ss hn ha.settled).subset hi

/-- **A text with nested sections leaves its strays**, when it is rendered with calm data. -/
theorem leaves_of_render (hc : c.Calm) {nested : Bool} (ht : calm.Template t) (hn : Nested (inners t) ss)
    (hset : Settled ss) (h : (render settings c nested t).Gives u) : Leaves u ss := by
  induction hl : t.length using Nat.strongRecOn generalizing t u c ss nested with
  | ind n ih =>
    have hno := Dialect.placeholderStart_notMem_of_template ht
    obtain ⟨-, -, hsymbols, -⟩ :=
      render_eq_symbols settings c nested hno (noPlaceholderIn_of_calm hsymbol hc ht)
    obtain ⟨log, hlog⟩ := h
    obtain ⟨ws, log', hr, -⟩ := hsymbols u log hlog
    obtain ⟨ys, hys, rfl⟩ := gives_renderSymbols_iff.1 ⟨log', hr⟩
    have hsub := remaining_sublist c.resolve t
    -- What is put for each symbol.
    have hputs : List.Forall₂ Symbol.Puts (remaining c.resolve t) ys := by
      refine ((List.forall₂_and_left _ _).2 ⟨fun x hx => hsub.subset hx, hys⟩).imp ?_
      rintro x y ⟨hx, f, hf, hy⟩
      cases x with
      | token k =>
        cases k with
        | char ch =>
          obtain rfl := gives_pure_iff.1 hf
          exact (gives_pure_iff.1 hy).symm
        | marker inner =>
          obtain ⟨v, hv, hf⟩ := gives_bind_iff.1 hf
          obtain rfl := gives_pure_iff.1 hf
          obtain rfl := gives_pure_iff.1 hy
          exact puts_marker hsymbol hc (ht.admits (mem_tokens_of_mem_symbols hx)) hv
      | span s index =>
        obtain rfl := gives_pure_iff.1 hf
        have hmem := List.mem_of_getElem? (getElem?_of_span_mem hx)
        have hbody := Span.template_body ht (Span.isBetween_of_mem_find hmem)
        exact gives_renderSpan hsymbol hc hbody (fun hc' hg ss hn hs =>
          ih _ (hl ▸ Span.length_body_of_mem_find hmem) hc' hbody hn hs hg rfl) hy
    obtain ⟨sss, hsss, rfl⟩ := exists_strays hn hset
    obtain ⟨left, hleft, hsublist⟩ := Merging.exists_sublist_of_forall₂ hsss hsub
    have hleaves : List.Forall₂ Leaves ys left :=
      Merging.forall₂_of_common hputs hleft fun x y ss hx hs => hx.leaves hs
    have hfit : calm.FitsAside ((remaining c.resolve t).flatMap Symbol.tokensAside) := by
      rw [← keep_setAside]
      exact Conditional.divisible_keep Dialect.divisible_fitsAside (Dialect.fitsAside_setAside ht)
    have hplace : ∀ ch, .token (.char ch) ∈ remaining c.resolve t → ch ≠ Span.placeholderStart := by
      rintro ch hch rfl
      exact hno (subset_of_mem_tokens (mem_tokens_of_mem_symbols (hsub.subset hch)) List.mem_cons_self)
    have hinners := inners_flatten hfit hplace hputs
    obtain ⟨hsubset, hsettled⟩ := leaves_flatten hleaves
    refine ⟨?_, ?_⟩
    · rw [hinners]
      exact List.Subset.trans hsubset hsublist.flatten.subset
    · rw [hinners]
      exact hsettled (List.Pairwise.sublist hsublist.flatten hset)

end Calm

end MailMerge.Section
