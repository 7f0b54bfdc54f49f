import MailMerge.Proofs.Merge.Results
import MailMerge.Proofs.Section.Rendering
import MailMerge.Proofs.Section.Symbols

/-!
# Rendering symbol by symbol

A text is rendered by resolving the conditionals among its symbols, filling in the fields that are
left, and putting each section that is left in its place, once for every record that it is bound to.
A section that a conditional drops is never bound. What is rendered for a record is a shorter text.

**`render_eq_symbols`**: a text is rendered symbol by symbol.
-/

namespace MailMerge.Section

open Marker (Token tokens joinTokens charTokens)
open Merging (Gives)

/-! ## The reference -/

/-- What is put together once fields are filled in: texts and sections. -/
inductive Filled where
  | text (x : Text)
  | span (s : Span) (index : Nat)

/-- The text that stands for it while sections are set aside. -/
def Filled.aside : Filled → Text
  | text x => x
  | span _ index => Span.placeholder index

section Rendering

variable (settings : Settings) (c : Context)

/-- A symbol with its field filled in. -/
def fillSymbol : Symbol → Merging ImageRequest Filled
  | .token (.char ch) => pure (.text [ch])
  | .token (.marker inner) => return .text (← Field.replace settings c true inner)
  | .span s index => pure (.span s index)

/-- A section, rendered once for each record that it is bound to. In a nested one, a section over a
collection looks into the current record only. -/
def renderSpan (nested : Bool) (s : Span) : Merging ImageRequest Text := do
  let records ← bind s.opener c (nested && !s.opener.fromSource)
  if settings.maxSectionRows < records.length then
    Merging.warn (.manyRecords s.opener.label records.length settings.maxSectionRows)
  let texts ← records.zipIdx.mapM fun (record, k) => render settings (c.forRow record k) true s.body
  return s.trimmed texts.flatten

/-- The text of what is put together. -/
def putFilled (nested : Bool) : Filled → Merging ImageRequest Text
  | .text x => pure x
  | .span s _ => renderSpan settings c nested s

/-- Symbols, with the fields filled in first and the sections put in their places then. -/
def renderSymbols (nested : Bool) (xs : List Symbol) : Merging ImageRequest Text := do
  let filled ← xs.mapM (fillSymbol settings c)
  let texts ← filled.mapM (putFilled settings c nested)
  return texts.flatten

end Rendering

variable {settings : Settings} {c : Context} {t : Text}

/-! ## Filling in fields -/

/-- Fields are filled in around the sections that are set aside. -/
theorem replaceTokens_aside (xs : List Symbol) :
    replaceTokens settings c (xs.flatMap Symbol.tokensAside) =
      (·.flatMap Filled.aside) <$> xs.mapM (fillSymbol settings c) := by
  induction xs with
  | nil => simp [replaceTokens]
  | cons x xs ih =>
    rw [List.flatMap_cons, List.mapM_cons]
    cases x with
    | token k =>
      cases k with
      | char ch =>
        show (replaceTokens settings c (.char ch :: xs.flatMap Symbol.tokensAside)) = _
        simp [replaceTokens, ih, fillSymbol, Filled.aside]
      | marker inner =>
        show (replaceTokens settings c (.marker inner :: xs.flatMap Symbol.tokensAside)) = _
        simp [replaceTokens, ih, fillSymbol, Filled.aside]
    | span s index =>
      show (replaceTokens settings c (charTokens (Span.placeholder index) ++ _)) = _
      rw [replaceTokens_charTokens, ih]
      simp [fillSymbol, Filled.aside, Functor.map_map]

/-- What is put together holds no placeholder but those of the given sections. -/
def Filled.FitsIn (spans : List Span) : Filled → Prop
  | .text x => Span.placeholderStart ∉ x
  | .span s index => spans[index]? = some s

/-- A marker that asks for no field is left as it is. -/
theorem eq_enclose_of_gives_replace {inner x : Text} (hk : (Marker.classify inner).kind ≠ .field)
    (h : (Field.replace settings c true inner).Gives x) : x = Marker.enclose inner := by
  unfold Field.replace at h
  dsimp only at h
  split at h
  · rw [if_pos rfl, Field.imageRequest, Merging.gives_bind_iff] at h
    obtain ⟨v, -, h⟩ := h
    exact (Merging.gives_report_iff.1 h).symm
  · next hf => exact absurd hf hk
  · exact (Merging.gives_pure_iff.1 h).symm

theorem subset_of_mem_tokens {k : Token} (h : k ∈ tokens t) : k.text ⊆ t := by
  obtain ⟨ts, us, he⟩ := List.append_of_mem h
  have hj := Marker.joinTokens_tokens t
  rw [he] at hj
  intro ch hc
  rw [← hj]
  simp [hc]

/-- No field of the text is filled in with the start of a placeholder. -/
def NoPlaceholderIn (settings : Settings) (c : Context) (t : Text) : Prop :=
  ∀ inner, .token (.marker inner) ∈ remaining c.resolve t → (Marker.classify inner).kind = .field →
    ∀ x, (Field.replace settings c true inner).Gives x → Span.placeholderStart ∉ x

theorem fitsIn_of_gives (ht : Span.placeholderStart ∉ t) (hv : NoPlaceholderIn settings c t)
    {filled : List Filled}
    (h : ((remaining c.resolve t).mapM (fillSymbol settings c)).Gives filled) :
    ∀ f ∈ filled, f.FitsIn (Span.find t).1 := by
  intro f hf
  obtain ⟨x, hx, hg⟩ : ∃ x ∈ remaining c.resolve t, (fillSymbol settings c x).Gives f := by
    obtain ⟨x, hx, hg⟩ := Merging.exists_of_forall₂ (Merging.gives_mapM_iff.1 h).flip hf
    exact ⟨x, hx, hg⟩
  have hmem := (remaining_sublist c.resolve t).subset hx
  cases x with
  | span s index =>
    obtain rfl := Merging.gives_pure_iff.1 hg
    exact getElem?_of_span_mem hmem
  | token k =>
    have hk := subset_of_mem_tokens (mem_tokens_of_mem_symbols hmem)
    cases k with
    | char ch =>
      obtain rfl := Merging.gives_pure_iff.1 hg
      exact fun hc => ht (hk hc)
    | marker inner =>
      obtain ⟨v, hv', hf⟩ := Merging.gives_bind_iff.1 hg
      obtain rfl := Merging.gives_pure_iff.1 hf
      show Span.placeholderStart ∉ v
      by_cases hfield : (Marker.classify inner).kind = .field
      · exact hv inner hx hfield v hv'
      · rw [eq_enclose_of_gives_replace hfield hv']
        exact fun hc => ht (hk hc)

/-! ## Putting sections in their places -/

/-- What is put together, where the number of a section has to be read back. -/
def putNumbered (settings : Settings) (c : Context) (nested : Bool) :
    Filled → Merging ImageRequest Text
  | .text x => pure x
  | .span s index => do
    let _ ← .ofFault (placeholderNumber (Text.ofNat index))
    renderSpan settings c nested s

theorem renderSpan_eq (nested : Bool) (s : Span) :
    renderSpan settings c nested s = do
      let records ← Section.records settings s.opener c nested
      let texts ← records.zipIdx.mapM fun (record, k) =>
        render settings (c.forRow record k) true s.body
      return s.trimmed texts.flatten := by
  rw [renderSpan, Section.records, bind_assoc]
  refine bind_congr fun rs => ?_
  by_cases hmany : settings.maxSectionRows < rs.length
  · simp [hmany]
  · simp [hmany]

theorem putSpan_eq {spans : List Span} {s : Span} {index : Nat} (h : spans[index]? = some s)
    (nested : Bool) :
    putSpan settings c nested spans (Text.ofNat index) =
      putNumbered settings c nested (.span s index) := by
  rw [putSpan, putNumbered, placeholderNumber_ofNat]
  by_cases hi : index < 10 ^ Numeral.maxDigits
  · rw [if_pos hi, Merging.ofFault_ok, pure_bind, pure_bind, h, renderSpan_eq]
  · rw [if_neg hi]
    rfl

theorem pieces_placeholder_append (index : Nat) (t : Text) :
    Span.pieces (Span.placeholder index ++ t) =
      .placeholder (Text.ofNat index) :: Span.pieces t := by
  have htail : IsPlaceholderTail (Text.ofNat index ++ [Span.placeholderEnd]) :=
    ⟨Text.ofNat index, Text.ofNat_ne_nil index, fun c hc => Text.isDecimalDigit_of_mem_ofNat hc, rfl⟩
  obtain ⟨digits, hd, hp⟩ := pieces_placeholder htail t
  obtain rfl : Text.ofNat index = digits := (List.append_inj' hd rfl).1
  exact hp

theorem flatten_map_cons {ι : Type} (x : Text) (y : Merging ι (List Text)) :
    List.flatten <$> (y >>= fun xs => pure (x :: xs)) = (x ++ ·) <$> (List.flatten <$> y) := by
  rw [bind_pure_comp, Functor.map_map, Functor.map_map]
  rfl

/-- **Each section is put in the place of its own placeholder.** -/
theorem mapM_putPiece_aside {spans : List Span} (nested : Bool) {filled : List Filled}
    (h : ∀ f ∈ filled, f.FitsIn spans) :
    List.flatten <$> (Span.pieces (filled.flatMap Filled.aside)).mapM
        (putPiece (putSpan settings c nested spans)) =
      List.flatten <$> filled.mapM (putNumbered settings c nested) := by
  induction filled with
  | nil =>
    rw [List.flatMap_nil, Span.pieces]
    rfl
  | cons f filled ih =>
    have ih := ih fun g hg => h g (List.mem_cons_of_mem f hg)
    rw [List.flatMap_cons, List.mapM_cons]
    cases f with
    | text x =>
      have hx : Span.placeholderStart ∉ x := h _ List.mem_cons_self
      show List.flatten <$> (Span.pieces (x ++ filled.flatMap Filled.aside)).mapM _ = _
      have hchars : ∀ ys : List Text, List.flatten (x.map (fun ch => [ch]) ++ ys) = x ++ ys.flatten := by
        intro ys
        rw [List.flatten_append, flatten_map_singleton]
      rw [mapM_putPiece_append hx, putNumbered, pure_bind, flatten_map_cons, ← ih, Functor.map_map,
        Functor.map_map]
      simp only [hchars]
    | span s index =>
      have hs : spans[index]? = some s := h _ List.mem_cons_self
      show List.flatten <$> (Span.pieces (Span.placeholder index ++ filled.flatMap Filled.aside)).mapM _ = _
      rw [pieces_placeholder_append, List.mapM_cons, putPiece, putSpan_eq hs, map_bind, map_bind]
      refine bind_congr fun x => ?_
      rw [flatten_map_cons, flatten_map_cons, ih]

/-! ## Rendering -/

/-- Symbols with the sections put in their places by their numbers. -/
def renderNumbered (settings : Settings) (c : Context) (nested : Bool) (xs : List Symbol) :
    Merging ImageRequest Text := do
  let filled ← xs.mapM (fillSymbol settings c)
  List.flatten <$> filled.mapM (putNumbered settings c nested)

/-- A text without sections to put back has none put in. -/
theorem flatMap_aside_of_isEmpty {spans : List Span} (hs : spans.isEmpty) (nested : Bool)
    {filled : List Filled} (h : ∀ f ∈ filled, f.FitsIn spans) :
    (pure (filled.flatMap Filled.aside) : Merging ImageRequest Text) =
      List.flatten <$> filled.mapM (putNumbered settings c nested) := by
  obtain rfl := List.isEmpty_iff.1 hs
  induction filled with
  | nil => rfl
  | cons f filled ih =>
    have ih := ih fun g hg => h g (List.mem_cons_of_mem f hg)
    cases f with
    | span s index => cases h _ List.mem_cons_self
    | text x =>
      rw [List.mapM_cons, putNumbered, pure_bind, flatten_map_cons, ← ih, map_pure]
      rfl

/-- **A text is rendered by its symbols**, once the conditionals are resolved. -/
theorem render_eq_numbered (nested : Bool) (ht : Span.placeholderStart ∉ t)
    (hv : NoPlaceholderIn settings c t) :
    ∃ x : Except Fault (List Warning), render settings c nested t = (do
      Merging.report (Span.find t).2 [] ()
      let ws ← .ofFault x
      if Nesting.depth (symbolPieces t) ≤ settings.maxPasses.toNat then
        Merging.report ws [] ()
        renderNumbered settings c nested (remaining c.resolve t)
      else
        .fail (.passLimit settings.maxPasses (Span.setAside t 0 0 (Span.find t).1))) := by
  obtain ⟨x, hx⟩ := resolve_setAside (ι := ImageRequest) settings c.resolve t
  refine ⟨x, ?_⟩
  rw [render_eq, hx]
  refine bind_congr fun _ => ?_
  rw [bind_assoc]
  refine bind_congr fun ws => ?_
  by_cases hd : Nesting.depth (symbolPieces t) ≤ settings.maxPasses.toNat
  · have htokens : tokens (joinTokens ((remaining c.resolve t).flatMap Symbol.tokensAside)) =
        (remaining c.resolve t).flatMap Symbol.tokensAside := by
      rw [← keep_setAside, Conditional.tokens_keep]
    rw [if_pos hd, if_pos hd, Merging.report_bind, substitute_eq, htokens, replaceTokens_aside,
      bind_map_left]
    refine bind_congr fun _ => ?_
    refine Merging.bind_congr_of_gives fun filled hg => ?_
    have hfit := fitsIn_of_gives ht hv hg
    by_cases he : (Span.find t).1.isEmpty
    · rw [if_pos he]
      exact flatMap_aside_of_isEmpty he nested hfit
    · rw [if_neg he]
      exact mapM_putPiece_aside nested hfit
  · rw [if_neg hd, if_neg hd]
    rfl

theorem renderSymbols_of_numbered {nested : Bool} {xs : List Symbol} {r : Text}
    {log : Log ImageRequest} (h : renderNumbered settings c nested xs = Except.ok (r, log)) :
    renderSymbols settings c nested xs = Except.ok (r, log) := by
  rw [renderNumbered] at h
  obtain ⟨filled, first, second, hf, hp, rfl⟩ := Merging.bind_eq_ok_iff.1 h
  rw [← bind_pure_comp] at hp
  obtain ⟨texts, first', second', ht, hr, rfl⟩ := Merging.bind_eq_ok_iff.1 hp
  have hput : ∀ f ∈ filled, ∀ q, putNumbered settings c nested f = Except.ok q →
      putFilled settings c nested f = Except.ok q := by
    intro f _ q hq
    cases f with
    | text x => exact hq
    | span s index =>
      rw [putNumbered] at hq
      cases hn : placeholderNumber (Text.ofNat index) with
      | error e =>
        rw [hn] at hq
        cases hq
      | ok n =>
        rw [hn, Merging.ofFault_ok, pure_bind] at hq
        exact hq
  have htexts := Merging.mapM_eq_ok_of hput ht
  exact Merging.bind_eq_ok_iff.2 ⟨filled, first, _, hf,
    Merging.bind_eq_ok_iff.2 ⟨texts, first', second', htexts, hr, rfl⟩, rfl⟩

/-- The numbers of as many sections are all read back. -/
theorem renderNumbered_eq (ht : Span.placeholderStart ∉ t) (hv : NoPlaceholderIn settings c t)
    (hmax : (Span.find t).1.length ≤ 10 ^ Numeral.maxDigits) (nested : Bool) :
    renderNumbered settings c nested (remaining c.resolve t) =
      renderSymbols settings c nested (remaining c.resolve t) := by
  rw [renderNumbered, renderSymbols]
  refine Merging.bind_congr_of_gives fun filled hg => ?_
  have hput : ∀ f ∈ filled, putNumbered settings c nested f = putFilled settings c nested f := by
    intro f hf
    cases f with
    | text x => rfl
    | span s index =>
      have hs : (Span.find t).1[index]? = some s := fitsIn_of_gives ht hv hg _ hf
      have hlt : index < (Span.find t).1.length := (List.getElem?_eq_some_iff.1 hs).1
      rw [putNumbered, placeholderNumber_ofNat, if_pos (Nat.lt_of_lt_of_le hlt hmax),
        Merging.ofFault_ok, pure_bind, putFilled]
  rw [Merging.mapM_congr hput, ← bind_pure_comp]

theorem Span.body_subset (t : Text) (opener closer : Marker) :
    (Span.between t opener closer).body ⊆ t := by
  have hslice : Text.slice t opener.stop closer.start ⊆ t :=
    fun _ hc => List.mem_of_mem_take (List.mem_of_mem_drop hc)
  unfold Span.between
  dsimp only
  split
  · exact fun _ hc => hslice (List.mem_of_mem_drop hc)
  · exact hslice

/-- **A text is rendered symbol by symbol.** The sections that are left are among those of the text,
and their bodies are shorter texts of the same kind. Whenever rendering gives a text, it is what the
symbols give that are left. And short of more sections than a number can count, rendering binds no
other section: once the conditionals are resolved, it is the rendering of these symbols. -/
theorem render_eq_symbols (settings : Settings) (c : Context) (nested : Bool) {t : Text}
    (ht : Span.placeholderStart ∉ t) (hv : NoPlaceholderIn settings c t) :
    ((remaining c.resolve t).filterMap Symbol.span?).Sublist (Span.find t).1.zipIdx ∧
    (∀ s ∈ (Span.find t).1, s.body.length < t.length ∧ Span.placeholderStart ∉ s.body) ∧
    (∀ r log, render settings c nested t = Except.ok (r, log) →
      ∃ ws log', renderSymbols settings c nested (remaining c.resolve t) = Except.ok (r, log') ∧
        log = ⟨(Span.find t).2 ++ ws, []⟩ ++ log') ∧
    ((Span.find t).1.length ≤ 10 ^ Numeral.maxDigits →
      ∃ x : Except Fault (List Warning), render settings c nested t = (do
        Merging.report (Span.find t).2 [] ()
        let ws ← .ofFault x
        if Nesting.depth (symbolPieces t) ≤ settings.maxPasses.toNat then
          Merging.report ws [] ()
          renderSymbols settings c nested (remaining c.resolve t)
        else
          .fail (.passLimit settings.maxPasses (Span.setAside t 0 0 (Span.find t).1)))) := by
  obtain ⟨x, hx⟩ := render_eq_numbered nested ht hv
  refine ⟨spans_remaining_sublist c.resolve t, ?_, ?_, ?_⟩
  · intro s hs
    refine ⟨Span.length_body_of_mem_find hs, fun hc => ht ?_⟩
    obtain ⟨opener, -, closer, -, -, -, rfl⟩ := Span.isBetween_of_mem_find hs
    exact Span.body_subset t opener closer hc
  · intro r log h
    rw [hx] at h
    obtain ⟨_, first, second, h₁, hrest, rfl⟩ := Merging.bind_eq_ok_iff.1 h
    obtain ⟨ws, third, fourth, h₂, hout, rfl⟩ := Merging.bind_eq_ok_iff.1 hrest
    cases x with
    | error f => cases h₂
    | ok ws' =>
      by_cases hd : Nesting.depth (symbolPieces t) ≤ settings.maxPasses.toNat
      · rw [if_pos hd] at hout
        obtain ⟨_, fifth, sixth, h₃, hnumbered, rfl⟩ := Merging.bind_eq_ok_iff.1 hout
        obtain ⟨-, rfl⟩ := Prod.mk.inj (Except.ok.inj h₁)
        obtain ⟨-, rfl⟩ := Prod.mk.inj (Except.ok.inj h₂)
        obtain ⟨-, rfl⟩ := Prod.mk.inj (Except.ok.inj h₃)
        refine ⟨ws, sixth, renderSymbols_of_numbered hnumbered, ?_⟩
        simp [Merging.Log.append_eq]
      · rw [if_neg hd] at hout
        cases hout
  · intro hmax
    rw [renderNumbered_eq ht hv hmax] at hx
    exact ⟨x, hx⟩

/-- A list of items, a list that is left out because there is nothing to list, and a field. -/
def shoppingList : Text :=
  Marker.enclose "#Items" ++ Marker.enclose "value" ++ ", ".toList ++ Marker.enclose "/Items"
    ++ Marker.enclose "IF Notes" ++ Marker.enclose "#Notes" ++ Marker.enclose "/Notes"
    ++ Marker.enclose "/IF" ++ Marker.enclose "Name"

/-- A name and two items. -/
def shopper : Context where
  data := [("Name", .text "Ann"), ("Items", .list [.text "tea", .text "milk"])]

theorem render_shoppingList :
    ∃ log, renderSymbols {} shopper false (remaining shopper.resolve shoppingList) =
      Except.ok ("tea, milk, Ann".toList, log) := by
  have hvalues : ∀ inner ∈ (tokens shoppingList).filterMap Token.inner?,
      (Field.replace {} shopper true inner).toOption.all fun r => Span.placeholderStart ∉ r.1 := by
    decide +kernel
  have hv : NoPlaceholderIn {} shopper shoppingList := by
    intro inner hi _ x hx
    have hmem := mem_tokens_of_mem_symbols ((remaining_sublist shopper.resolve _).subset hi)
    have hall := hvalues inner (List.mem_filterMap.2 ⟨_, hmem, rfl⟩)
    obtain ⟨log, hx⟩ := hx
    rw [hx] at hall
    exact of_decide_eq_true hall
  have hrender : ((render {} shopper false shoppingList).toOption.map Prod.fst) =
      some "tea, milk, Ann".toList := by
    decide +kernel
  obtain ⟨-, -, hok, -⟩ := render_eq_symbols {} shopper false (by decide +kernel) hv
  cases hr : render {} shopper false shoppingList with
  | error e =>
    rw [hr] at hrender
    cases hrender
  | ok r =>
    rw [hr] at hrender
    obtain ⟨ws, log, hs, -⟩ := hok r.1 r.2 hr
    exact ⟨log, by rw [hs, Option.some.inj hrender]⟩

end MailMerge.Section
