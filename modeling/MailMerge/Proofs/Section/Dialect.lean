import MailMerge.Proofs.Marker.Token
import MailMerge.Proofs.Text.Calm
import MailMerge.Section.Span
import MailMerge.Section.Template

/-!
# Dialects of templates

A dialect says what template texts are made of: what has to follow a character outside markers, and
what markers may say. The texts of a dialect stay in it when they are cut at a marker, and when a
marker is taken out, with or without its line.

**`template_withoutFirst`**, **`template_withoutLast`**: a text without a marker is in the dialect.
-/

namespace MailMerge.Section

open Marker (Token tokens joinTokens charTokens Sealed Divisible Simple)

variable {follows follows' : Char → Text → Prop} {ts us : List Token} {t : Text}

/-! ## What follows characters -/

/-- Each character outside markers is followed, among such characters, by what may follow it. -/
def Guarded (follows : Char → Text → Prop) : List Token → Prop
  | [] => True
  | .char c :: ts => (∃ x, follows c x ∧ charTokens x <+: ts) ∧ Guarded follows ts
  | .marker _ :: ts => Guarded follows ts

theorem Guarded.mono (h : Guarded follows ts) (hf : ∀ c x, follows c x → follows' c x) :
    Guarded follows' ts := by
  induction ts with
  | nil => trivial
  | cons k ts ih =>
    cases k with
    | marker inner => exact ih h
    | char c =>
      obtain ⟨⟨x, hx, hp⟩, h⟩ := h
      exact ⟨⟨x, hf c x hx, hp⟩, ih h⟩

theorem Guarded.append (ht : Guarded follows ts) (hu : Guarded follows us) :
    Guarded follows (ts ++ us) := by
  induction ts with
  | nil => exact hu
  | cons k ts ih =>
    cases k with
    | marker inner => exact ih ht
    | char c =>
      obtain ⟨⟨x, hx, hp⟩, ht⟩ := ht
      exact ⟨⟨x, hx, hp.trans (List.prefix_append ts us)⟩, ih ht⟩

theorem Guarded.right (h : Guarded follows (ts ++ us)) : Guarded follows us := by
  induction ts with
  | nil => exact h
  | cons k ts ih =>
    cases k with
    | marker inner => exact ih h
    | char c => exact ih h.2

theorem prefix_of_not_mem {α : Type} {as bs cs : List α} {b : α} (hb : b ∉ as)
    (h : as <+: bs ++ b :: cs) : as <+: bs := by
  have h' : bs ++ [b] <+: bs ++ b :: cs := ⟨cs, by simp⟩
  rcases List.prefix_or_prefix_of_prefix h h' with hp | hp
  · rcases List.prefix_concat_iff.1 hp with rfl | hp
    · simp at hb
    · exact hp
  · exact absurd (hp.subset (by simp)) hb

/-- Up to a token that nothing is followed by, characters are guarded by themselves. -/
theorem Guarded.left {k : Token} (hk : ∀ c x, follows c x → k ∉ charTokens x)
    (h : Guarded follows (ts ++ k :: us)) : Guarded follows ts := by
  induction ts with
  | nil => trivial
  | cons k' ts ih =>
    cases k' with
    | marker inner => exact ih h
    | char c =>
      obtain ⟨⟨x, hx, hp⟩, h⟩ := h
      exact ⟨⟨x, hx, prefix_of_not_mem (hk c x hx) hp⟩, ih h⟩

theorem marker_notMem_charTokens (inner x : Text) : Token.marker inner ∉ charTokens x := by
  intro h
  obtain ⟨c, -, hc⟩ := List.mem_map.1 h
  cases hc

theorem char_mem_charTokens {c : Char} {x : Text} : Token.char c ∈ charTokens x ↔ c ∈ x := by
  simp [charTokens]

theorem divisible_guarded (follows : Char → Text → Prop) : Divisible (Guarded follows) where
  nil := trivial
  append := Guarded.append
  left h := h.left fun _ x _ => marker_notMem_charTokens _ x
  marker _ := trivial
  right := Guarded.right

/-- Without placeholders among what is guarded and in markers there is none in the text. -/
theorem placeholderStart_notMem_joinTokens (h : Guarded follows ts)
    (hf : ∀ c x, follows c x → c ≠ Span.placeholderStart)
    (hm : ∀ inner, .marker inner ∈ ts → Span.placeholderStart ∉ inner) :
    Span.placeholderStart ∉ joinTokens ts := by
  induction ts with
  | nil => exact List.not_mem_nil
  | cons k ts ih =>
    have hrest : ∀ inner, .marker inner ∈ ts → Span.placeholderStart ∉ inner :=
      fun inner hi => hm inner (List.mem_cons_of_mem k hi)
    rw [Marker.joinTokens_cons, List.mem_append]
    cases k with
    | char c =>
      obtain ⟨⟨x, hx, -⟩, h⟩ := h
      rintro (hc | hc)
      · exact hf c x hx (List.mem_singleton.1 hc).symm
      · exact ih h hrest hc
    | marker inner =>
      have hi := hm inner List.mem_cons_self
      rintro (hc | hc)
      · have hb : Span.placeholderStart ∉ Marker.opening ∧ Span.placeholderStart ∉ Marker.closing := by
          decide
        simp only [Token.text, Marker.enclose, List.mem_append] at hc
        rcases hc with (hc | hc) | hc
        · exact hb.1 hc
        · exact hi hc
        · exact hb.2 hc
      · exact ih h hrest hc

/-! ## What goes with a marker -/

theorem plain_of_allBlank {x : Text} (hb : Text.allBlank x) : ∀ c ∈ x, c ≠ '{' ∧ c ≠ '}' :=
  fun c hc => Text.ne_brace_of_isBlank (List.all_eq_true.1 hb c hc)

/-- **Nothing but blanks goes with a marker** that is taken out of a text. Where blanks go that stand
behind something, they begin at the end of a line, and so does what follows. -/
theorem exists_of_withoutMarker (before marker after : Text) :
    ∃ x x' y' y, before = x ++ x' ∧ after = y' ++ y ∧ Text.allBlank x' ∧ Text.allBlank y' ∧
      withoutMarker before marker after = x ++ y ∧
      (x' = [] ∨ x = [] ∨ x'.head? = some '\n' ∧ (y = [] ∨ y.head? = some '\n')) := by
  have hboth : ∃ x x' y' y, before = x ++ x' ∧ after = y' ++ y ∧ Text.allBlank x' ∧ Text.allBlank y' ∧
      before ++ after = x ++ y ∧
      (x' = [] ∨ x = [] ∨ x'.head? = some '\n' ∧ (y = [] ∨ y.head? = some '\n')) :=
    ⟨before, [], [], after, by simp, rfl, rfl, rfl, rfl, .inl rfl⟩
  have hnewline : ∀ {t : Text}, Text.allBlank t → Text.allBlank ('\n' :: t) := fun h => by
    rw [Text.allBlank, List.all_cons, Bool.and_eq_true]
    exact ⟨by decide, h⟩
  unfold withoutMarker
  cases hl : Text.cutLast? ['\n'] before with
  | none =>
    cases hf : Text.cutFirst? ['\n'] after with
    | none =>
      dsimp only
      split
      · next hb => exact ⟨[], before, after, [], rfl, by simp, hb.1, hb.2.1, rfl, .inr (.inl rfl)⟩
      · exact hboth
    | some q =>
      dsimp only
      split
      · next hb =>
        refine ⟨[], before, q.1 ++ ['\n'], q.2, rfl, Text.eq_append_of_cutFirst? hf, hb.1, ?_, rfl,
          .inr (.inl rfl)⟩
        rw [Text.allBlank, List.all_append, Bool.and_eq_true]
        exact ⟨hb.2.1, by decide⟩
      · exact hboth
  | some p =>
    have he : before = p.1 ++ '\n' :: p.2 := by simpa using Text.eq_append_of_cutLast? hl
    cases hf : Text.cutFirst? ['\n'] after with
    | none =>
      dsimp only
      split
      · next hb =>
        exact ⟨p.1, '\n' :: p.2, after, [], he, by simp, hnewline hb.1, hb.2.1, by simp,
          .inr (.inr ⟨rfl, .inl rfl⟩)⟩
      · exact hboth
    | some q =>
      dsimp only
      split
      · next hb =>
        exact ⟨p.1, '\n' :: p.2, q.1, '\n' :: q.2, he, by simpa using Text.eq_append_of_cutFirst? hf,
          hnewline hb.1, hb.2.1, rfl, .inr (.inr ⟨rfl, .inr rfl⟩)⟩
      · exact hboth

/-- A list is still sealed with another character at its end. -/
theorem sealed_concat {ts : List Token} {c d : Char} (h : Sealed (ts ++ [.char c])) (hd : d ≠ '{') :
    Sealed (ts ++ [.char d]) := by
  induction ts with
  | nil => exact ⟨fun hb => absurd hb hd, trivial⟩
  | cons k ts ih =>
    cases k with
    | marker inner => exact ⟨h.1, ih h.2⟩
    | char e =>
      refine ⟨fun he => ?_, ih h.2⟩
      obtain ⟨f, hf, hhead⟩ := h.1 he
      cases ts with
      | nil => exact ⟨d, hd, rfl⟩
      | cons k ts => exact ⟨f, hf, hhead⟩

theorem sealed_of_getLast? {ts : List Token} {c : Char} (h : Sealed (ts ++ [.char c]))
    (hlast : (joinTokens ts).getLast? ≠ some '{') : Sealed ts := by
  rcases List.eq_nil_or_concat ts with rfl | ⟨us, k, rfl⟩
  · exact Marker.sealed_nil
  · rw [List.concat_eq_append] at h hlast ⊢
    rw [List.append_assoc] at h
    cases k with
    | marker inner =>
      obtain ⟨hs, hf, -⟩ := Marker.sealed_append_marker_iff.1 h
      exact Marker.sealed_append_marker_iff.2 ⟨hs, hf, trivial⟩
    | char d =>
      refine h.left_char fun hd => hlast ?_
      simp [Token.text, hd]

/-- Where blanks are left out of a text, tokens meet as they are, unless two braces would meet. -/
theorem tokens_seam {a x b : Text} (hs : Sealed (tokens (a ++ x))) (hx : Text.allBlank x)
    (h : x = [] ∨ a.getLast? ≠ some '{' ∨ b.head? ≠ some '{') :
    tokens (a ++ x) = tokens a ++ charTokens x ∧ tokens (a ++ b) = tokens a ++ tokens b := by
  have hblank := plain_of_allBlank hx
  have hax := Marker.tokens_append_plain a hblank
  refine ⟨hax, ?_⟩
  have hsealed : Sealed (tokens a) → tokens (a ++ b) = tokens a ++ tokens b := fun hs => by
    have := Marker.tokens_joinTokens_append hs b
    rwa [Marker.joinTokens_tokens] at this
  rw [hax] at hs
  cases x with
  | nil => exact hsealed (by simpa using hs)
  | cons c x =>
    have hc : Sealed (tokens a ++ [.char c]) := hs.left_char (hblank c List.mem_cons_self).1
    rcases h with h | h | h
    · cases h
    · exact hsealed (sealed_of_getLast? hc (by rwa [Marker.joinTokens_tokens]))
    · cases b with
      | nil => simp
      | cons d b =>
        have hd : d ≠ '{' := fun he => h (congrArg some he)
        have := Marker.tokens_joinTokens_append (sealed_concat hc hd) b
        rw [Marker.joinTokens_append, Marker.joinTokens_tokens] at this
        rw [show d :: b = [d] ++ b from rfl,
          Marker.tokens_plain_append (t := [d]) (by simpa using hd), ← List.append_assoc]
        simpa [Token.text] using this

/-! ## Dialects -/

/-- What template texts are made of. -/
structure Dialect where
  /-- What has to follow a character that stands outside markers. -/
  follows : Char → Text → Prop
  /-- What markers may say. -/
  admits : Text → Prop
  plain {c : Char} : Text.Plain c → follows c []
  oneLine {c : Char} {x : Text} : follows c x → '\n' ∉ x
  noPlaceholder {c : Char} {x : Text} : follows c x → Span.placeholderStart ∉ c :: x
  simple {inner : Text} : admits inner → Simple inner
  admitsNoPlaceholder {inner : Text} : admits inner → Span.placeholderStart ∉ inner

namespace Dialect

variable (D : Dialect)

/-- The tokens are of the dialect. -/
def Fits (ts : List Token) : Prop :=
  Guarded D.follows ts ∧ ∀ k ∈ ts, ∀ inner, k = .marker inner → D.admits inner

/-- The text is a template of the dialect. -/
def Template (t : Text) : Prop :=
  D.Fits (tokens t)

variable {D}

theorem divisible_fits : Divisible D.Fits :=
  (divisible_guarded D.follows).and (Marker.divisible_forall _)

theorem Fits.admits {inner : Text} (h : D.Fits ts) (hm : .marker inner ∈ ts) : D.admits inner :=
  h.2 _ hm inner rfl

theorem fits_char {c : Char} (h : D.follows c []) : D.Fits [.char c] := by
  refine ⟨⟨⟨[], h, List.nil_prefix⟩, trivial⟩, ?_⟩
  simp

/-- The characters up to the end of a line are of the dialect by themselves. -/
theorem Fits.left_newline (h : D.Fits (ts ++ .char '\n' :: us)) : D.Fits ts := by
  refine ⟨h.1.left fun c x hx => ?_, fun k hk => h.2 k (List.mem_append_left _ hk)⟩
  rw [char_mem_charTokens]
  exact D.oneLine hx

theorem fits_charTokens {x : Text} (hx : Text.AllPlain x) : D.Fits (charTokens x) := by
  induction x with
  | nil => exact divisible_fits.nil
  | cons c x ih =>
    rw [Text.allPlain_cons] at hx
    exact divisible_fits.append (fits_char (D.plain hx.1)) (ih hx.2)

theorem template_nil : D.Template [] := by
  rw [Template, Marker.tokens_nil]
  exact divisible_fits.nil

theorem placeholderStart_notMem_of_template (ht : D.Template t) : Span.placeholderStart ∉ t := by
  have := placeholderStart_notMem_joinTokens ht.1
    (fun c x hx he => D.noPlaceholder hx (he ▸ List.mem_cons_self))
    (fun inner hi => D.admitsNoPlaceholder (Fits.admits ht hi))
  rwa [Marker.joinTokens_tokens] at this

theorem template_plain_append {s : Text} (hs : Text.AllPlain s) (ht : D.Template t) :
    D.Template (s ++ t) := by
  rw [Template, Marker.tokens_plain_append fun c hc => (hs c hc).1]
  exact divisible_fits.append (fits_charTokens hs) ht

theorem template_enclose_append {inner : Text} (hf : Text.FreeOf Marker.closing inner)
    (hi : D.admits inner) (ht : D.Template t) : D.Template (Marker.enclose inner ++ t) := by
  rw [Template, Marker.tokens_enclose hf]
  have hmarker : D.Fits [.marker inner] := by
    refine ⟨trivial, fun k hk i he => ?_⟩
    obtain rfl := List.mem_singleton.1 hk
    obtain rfl := Token.marker.inj he
    exact hi
  exact divisible_fits.append hmarker ht

/-! ## A text around a marker -/

/-- A text with one of its markers: the tokens before it, its inner text, and the tokens after it. -/
structure Around (D : Dialect) (ts : List Token) (inner : Text) (us : List Token) : Prop where
  sealed : Sealed ts
  free : Text.FreeOf Marker.closing inner
  fits : D.Fits (ts ++ .marker inner :: us)
  rest : tokens (joinTokens us) = us

theorem Template.around {inner : Text} (ht : D.Template t)
    (h : tokens t = ts ++ .marker inner :: us) : Around D ts inner us where
  sealed := (Marker.sealed_left h).1
  free := (Marker.sealed_left h).2
  fits := by rwa [Template, h] at ht
  rest := Marker.tokens_right (h.trans (List.append_cons ..))

/-- An occurrence of a marker's text is a marker. -/
theorem Template.exists_around {a inner b : Text} (ht : D.Template t)
    (hi : Text.FreeOf Marker.closing inner) (h : t = a ++ Marker.enclose inner ++ b) :
    ∃ ts us, Around D ts inner us ∧ joinTokens ts = a ∧ joinTokens us = b := by
  obtain ⟨ts, us, htok, ha, hb⟩ := Marker.tokens_of_occurrence (t := t)
    (fun i hm => D.simple (ht.admits hm)) hi h
  exact ⟨ts, us, ht.around htok, ha, hb⟩

namespace Around

variable {inner : Text}

theorem fits_left (h : Around D ts inner us) : D.Fits ts :=
  divisible_fits.left h.fits

theorem fits_right (h : Around D ts inner us) : D.Fits us :=
  divisible_fits.after h.fits

/-- **A text without one of its markers has all other tokens**, but for blanks. -/
theorem exists_withoutMarker (h : Around D ts inner us) (marker : Text) :
    ∃ ts' us' a b, ts = ts' ++ charTokens a ∧ us = charTokens b ++ us' ∧ D.Fits ts' ∧
      tokens (withoutMarker (joinTokens ts) marker (joinTokens us)) = ts' ++ us' := by
  obtain ⟨x, x', y', y, hx, hy, hbx, hby, he, hcase⟩ :=
    exists_of_withoutMarker (joinTokens ts) marker (joinTokens us)
  have hts : ts = tokens (x ++ x') := by rw [← hx, Marker.tokens_joinTokens h.sealed]
  obtain ⟨hblanks, hjoin⟩ := tokens_seam (b := y) (hts ▸ h.sealed) hbx (by
    rcases hcase with rfl | rfl | ⟨-, rfl | hn⟩
    · exact .inl rfl
    · exact .inr (.inl (by simp))
    · exact .inr (.inr (by simp))
    · exact .inr (.inr (by simp [hn])))
  refine ⟨tokens x, tokens y, x', y', hts.trans hblanks, ?_, ?_, by rw [he, hjoin]⟩
  · rw [← h.rest, hy]
    exact Marker.tokens_plain_append (fun c hc => (plain_of_allBlank hby c hc).1) y
  · have hfits := h.fits_left
    rw [hts, hblanks] at hfits
    rcases hcase with rfl | rfl | ⟨hn, -⟩
    · simpa using hfits
    · rw [Marker.tokens_nil]
      exact divisible_fits.nil
    · obtain ⟨z, rfl⟩ := List.head?_eq_some_iff.1 hn
      exact hfits.left_newline

/-- **A text without one of its markers is a template again.** -/
theorem template_withoutMarker (h : Around D ts inner us) (marker : Text) :
    D.Template (withoutMarker (joinTokens ts) marker (joinTokens us)) := by
  obtain ⟨ts', us', a, b, -, hus, hfit, ht⟩ := h.exists_withoutMarker marker
  have hright := h.fits_right
  rw [hus] at hright
  rw [Template, ht]
  exact divisible_fits.append hfit (divisible_fits.right hright)

end Around

/-! ## Taking out a marker -/

theorem template_withoutFirst {inner : Text} (ht : D.Template t)
    (hi : Text.FreeOf Marker.closing inner) : D.Template (withoutFirst (Marker.enclose inner) t) := by
  unfold withoutFirst
  cases hc : Text.cutFirst? (Marker.enclose inner) t with
  | none => exact ht
  | some p =>
    obtain ⟨ts, us, ha, h₁, h₂⟩ := ht.exists_around hi (Text.eq_append_of_cutFirst? hc)
    have := ha.template_withoutMarker (Marker.enclose inner)
    rwa [h₁, h₂] at this

theorem template_withoutLast {inner : Text} (ht : D.Template t)
    (hi : Text.FreeOf Marker.closing inner) : D.Template (withoutLast (Marker.enclose inner) t) := by
  unfold withoutLast
  cases hc : Text.cutLast? (Marker.enclose inner) t with
  | none => exact ht
  | some p =>
    obtain ⟨ts, us, ha, h₁, h₂⟩ := ht.exists_around hi (Text.eq_append_of_cutLast? hc)
    have := ha.template_withoutMarker (Marker.enclose inner)
    rwa [h₁, h₂] at this

end Dialect
end MailMerge.Section
