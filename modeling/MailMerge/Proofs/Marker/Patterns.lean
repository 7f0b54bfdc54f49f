import MailMerge.Marker.Scan
import MailMerge.Proofs.Text.Cut
import Mathlib.Data.List.Forall2

/-!
# Patterns of markers

The patterns of the kinds of markers, written down as what a text has to be made of. They are tried in
an order, but the order says little: what a text begins with tells its pattern, except that the end of
a conditional reads like the end of a section called `IF`.

**`pattern?_eq_some_iff`**: a trimmed text is read by the pattern of a kind exactly if it is made so.

**`classify_orderless`**: two patterns fit no text but those of the two ends, so that only these have to
be tried in order; and a section is closed by its name behind a slash.
-/

namespace MailMerge

namespace Text

variable {keyword part t u rest : Text}

/-! ## Keywords -/

/-- The text is the keyword, given in capitals, in any case. -/
def IsKeyword (keyword t : Text) : Prop :=
  List.Forall₂ (fun k c => matchesLetter k c) keyword t

theorem dropKeyword?_eq_some_iff :
    dropKeyword? keyword t = some rest ↔ ∃ w, IsKeyword keyword w ∧ t = w ++ rest := by
  induction keyword generalizing t with
  | nil => simp [dropKeyword?, IsKeyword]
  | cons k keyword ih =>
    cases t with
    | nil => simp [dropKeyword?, IsKeyword, List.forall₂_cons_left_iff]
    | cons c t =>
      rw [dropKeyword?]
      constructor
      · intro h
        split at h
        · next hc =>
          obtain ⟨w, hw, rfl⟩ := ih.1 h
          exact ⟨c :: w, .cons hc hw, rfl⟩
        · cases h
      · rintro ⟨w, hw, he⟩
        obtain ⟨d, v, hd, hv, rfl⟩ := List.forall₂_cons_left_iff.1 hw
        obtain ⟨rfl, rfl⟩ := List.cons.inj he
        rw [if_pos hd]
        exact ih.2 ⟨v, hv, rfl⟩

theorem dropStart?_eq_some_iff : dropStart? part t = some rest ↔ t = part ++ rest :=
  ⟨eq_append_of_dropStart?, fun h => h ▸ dropStart?_append part rest⟩

theorem dropStart?_singleton_eq_some_iff {c : Char} : dropStart? [c] t = some rest ↔ t = c :: rest :=
  dropStart?_eq_some_iff

/-- The word `IF` in any case. -/
theorem IsKeyword.exists_if (h : IsKeyword ['I', 'F'] t) :
    ∃ c d, t = [c, d] ∧ (c = 'I' ∨ c = 'i' ∨ c = 'ı' ∨ c = 'İ') ∧ (d = 'F' ∨ d = 'f') := by
  obtain ⟨c, v, hc, hv, rfl⟩ := List.forall₂_cons_left_iff.1 h
  obtain ⟨d, rest, hd, hrest, rfl⟩ := List.forall₂_cons_left_iff.1 hv
  obtain rfl := List.forall₂_nil_left_iff.1 hrest
  refine ⟨c, d, rfl, ?_, ?_⟩
  · simpa [matchesLetter, foldsOnto, or_assoc] using hc
  · simpa [matchesLetter, foldsOnto] using hd

/-- The word `ELSE` in any case. -/
theorem IsKeyword.exists_else (h : IsKeyword ['E', 'L', 'S', 'E'] t) :
    ∃ c v, t = c :: v ∧ (c = 'E' ∨ c = 'e') := by
  obtain ⟨c, v, hc, -, rfl⟩ := List.forall₂_cons_left_iff.1 h
  exact ⟨c, v, rfl, by simpa [matchesLetter, foldsOnto] using hc⟩

theorem IsKeyword.trimStart_if (h : IsKeyword ['I', 'F'] t) (u : Text) :
    trimStart (t ++ u) = t ++ u := by
  obtain ⟨c, d, rfl, hc, -⟩ := h.exists_if
  apply trimStart_eq_self
  rintro x hx
  obtain rfl : c = x := Option.some.inj hx
  rcases hc with rfl | rfl | rfl | rfl <;> decide

/-! ## Texts that end in ink -/

/-- The text does not end with a blank. -/
def EndsInInk (t : Text) : Prop :=
  ∀ c ∈ t.getLast?, isBlank c = false

theorem endsInInk_of_trim (h : trim t = t) : EndsInInk t :=
  (isBlank_ends_of_trim h).2

theorem EndsInInk.right (h : EndsInInk (t ++ u)) : EndsInInk u := by
  intro c hc
  refine h c ?_
  rw [List.getLast?_append, Option.mem_def.1 hc]
  rfl

theorem EndsInInk.trim_eq (h : EndsInInk t) : trim t = trimStart t := by
  have hsuffix : trimStart t <:+ t := List.dropWhile_suffix _
  obtain ⟨blanks, hblanks⟩ := hsuffix
  exact trimEnd_eq_self (EndsInInk.right (hblanks ▸ h))

theorem EndsInInk.trimStart_ne_nil (h : EndsInInk t) (hne : t ≠ []) : trimStart t ≠ [] := by
  intro hnil
  have hlast := h (t.getLast hne) (List.getLast?_eq_some_getLast hne)
  have hblank := List.dropWhile_eq_nil_iff.1 hnil (t.getLast hne) (List.getLast_mem hne)
  exact absurd hblank (by simp [hlast])

end Text

namespace Marker

open Text (IsKeyword EndsInInk isBlank)

variable {t u a : Text} {s s' : Sense} {k k' : Kind}

/-! ## Parts of patterns -/

theorem argument?_eq_some_iff (h : EndsInInk t) : argument? t = some a ↔
    ∃ gap u, gap ≠ [] ∧ (∀ c ∈ gap, isBlank c) ∧ u ≠ [] ∧ t = gap ++ u ∧ a = Text.trim u := by
  constructor
  · intro ha
    cases t with
    | nil => cases ha
    | cons c rest =>
      simp only [argument?] at ha
      split at ha
      · next hc =>
        have hrest : rest ≠ [] := fun hnil => hc.2 (by rw [hnil]; rfl)
        refine ⟨[c], rest, List.cons_ne_nil c [], by simpa using hc.1, hrest, rfl, ?_⟩
        rw [EndsInInk.trim_eq (t := rest) (EndsInInk.right (t := [c]) h)]
        exact (Option.some.inj ha).symm
      · cases ha
  · rintro ⟨gap, u, hne, hgap, hu, rfl, rfl⟩
    obtain ⟨c, gap, rfl⟩ := List.exists_cons_of_ne_nil hne
    rw [List.forall_mem_cons] at hgap
    have hink : EndsInInk u := h.right
    rw [List.cons_append, argument?]
    simp only [Text.trimStart_blanks hgap.2]
    rw [if_pos ⟨hgap.1, hink.trimStart_ne_nil hu⟩, hink.trim_eq]

/-- The text is the name of a section. -/
def IsSectionName : Text → Prop
  | [] => False
  | c :: rest => (Text.isNameLetter c ∨ c = '_') ∧ ∀ d ∈ rest, Text.isWordChar d ∨ d = '.'

theorem sectionName?_eq_some_iff : sectionName? t = some a ↔ IsSectionName t ∧ a = t := by
  cases t with
  | nil => simp [sectionName?, IsSectionName]
  | cons c rest =>
    simp only [sectionName?, IsSectionName, List.all_eq_true, Bool.or_eq_true, beq_iff_eq]
    constructor
    · intro h
      split at h
      · next hc => exact ⟨hc, (Option.some.inj h).symm⟩
      · cases h
    · rintro ⟨hc, rfl⟩
      exact if_pos hc

/-- A name does not begin with a blank, nor with a sign of a section. -/
theorem IsSectionName.head (h : IsSectionName t) : ∀ c ∈ t.head?, isBlank c = false ∧ c ≠ '@' := by
  intro c hc
  obtain ⟨rest, rfl⟩ := List.head?_eq_some_iff.1 hc
  constructor
  · rw [← Bool.not_eq_true]
    intro hblank
    exact Text.forall_isBlank (P := fun c => ¬ (Text.isNameLetter c ∨ c = '_')) (by decide +kernel) hblank h.1
  · rintro rfl
    exact absurd h.1 (by decide)

theorem IsSectionName.isBlank_eq_false (h : IsSectionName t) : ∀ c ∈ t, isBlank c = false := by
  intro c hc
  cases t with
  | nil => cases hc
  | cons d rest =>
    rcases List.mem_cons.1 hc with rfl | hc
    · exact (h.head c rfl).1
    · rw [← Bool.not_eq_true]
      intro hblank
      exact Text.forall_isBlank (P := fun c => ¬ (Text.isWordChar c ∨ c = '.')) (by decide +kernel) hblank
        (h.2 c hc)

theorem IsSectionName.trimStart_eq (h : IsSectionName t) : Text.trimStart t = t :=
  Text.trimStart_eq_self fun c hc => (h.head c hc).1

/-! ## The patterns -/

/-- What a text is made of if it is a marker of some kind, and what it says. -/
inductive Fits : Text → Sense → Prop
  | ifStart {w gap t : Text} : IsKeyword ['I', 'F'] w → gap ≠ [] → (∀ c ∈ gap, isBlank c) → t ≠ [] →
      Fits (w ++ (gap ++ t)) { kind := .ifStart, argument := Text.trim t }
  | elseIf {w gap w' gap' t : Text} : IsKeyword ['E', 'L', 'S', 'E'] w → (∀ c ∈ gap, isBlank c) →
      IsKeyword ['I', 'F'] w' → gap' ≠ [] → (∀ c ∈ gap', isBlank c) → t ≠ [] →
      Fits (w ++ (gap ++ (w' ++ (gap' ++ t)))) { kind := .elseIf, argument := Text.trim t }
  | otherwise {w : Text} : IsKeyword ['E', 'L', 'S', 'E'] w → Fits w { kind := .otherwise }
  | ifEnd {gap w : Text} : (∀ c ∈ gap, isBlank c) → IsKeyword ['I', 'F'] w →
      Fits ('/' :: (gap ++ w)) { kind := .ifEnd }
  | sectionStart {c : Char} {gap t : Text} : c = '#' ∨ c = '@' → (∀ c ∈ gap, isBlank c) →
      IsSectionName t →
      Fits (c :: (gap ++ t)) { kind := .sectionStart, argument := t, fromSource := c == '@' }
  | sectionEnd {gap t : Text} : (∀ c ∈ gap, isBlank c) → IsSectionName t →
      Fits ('/' :: (gap ++ t)) { kind := .sectionEnd, argument := t }
  | sourceEnd {gap gap' t : Text} : (∀ c ∈ gap, isBlank c) → (∀ c ∈ gap', isBlank c) →
      IsSectionName t →
      Fits ('/' :: (gap ++ '@' :: (gap' ++ t)))
        { kind := .sectionEnd, argument := t, fromSource := true }
  | image {gap t : Text} : (∀ c ∈ gap, isBlank c) → t ≠ [] →
      Fits (['I', 'M', 'A', 'G', 'E'] ++ (gap ++ ':' :: t)) { kind := .image, argument := Text.trim t }
  | pageBreak {t : Text} : t = "PAGEBREAK".toList ∨ t = "PAGE_BREAK".toList →
      Fits t { kind := .pageBreak }

/-- The text is one that the pattern of a kind fits. -/
def Matches (k : Kind) (t : Text) : Prop :=
  ∃ s, Fits t s ∧ s.kind = k

/-- The pattern of a kind, and what it makes of a text. A field has none. -/
def pattern? : Kind → Text → Option Sense
  | .field => fun _ => none
  | .ifStart => ifStart?
  | .elseIf => elseIf?
  | .otherwise => otherwise?
  | .ifEnd => ifEnd?
  | .sectionStart => sectionStart?
  | .sectionEnd => sectionEnd?
  | .image => image?
  | .pageBreak => pageBreak?

/-- Where blanks in front are passed over, the text is a run of blanks and what is left. -/
theorem exists_blanks (t : Text) :
    ∃ gap, (∀ c ∈ gap, isBlank c) ∧ ∃ u, t = gap ++ u ∧ Text.trimStart t = u :=
  ⟨t.takeWhile isBlank, fun _ hc => List.mem_takeWhile_imp hc, _,
    List.takeWhile_append_dropWhile.symm, rfl⟩

/-! ### What a pattern reads -/

section Reads

variable (ht : EndsInInk t)
include ht

theorem fits_of_ifStart? (h : ifStart? t = some s) : Fits t s ∧ s.kind = .ifStart := by
  simp only [ifStart?, Option.bind_eq_bind, Option.bind_eq_some_iff, Option.pure_def,
    Option.some.injEq] at h
  obtain ⟨rest, hif, argument, hargument, rfl⟩ := h
  obtain ⟨w, hw, rfl⟩ := Text.dropKeyword?_eq_some_iff.1 hif
  obtain ⟨gap, u, hne, hgap, hu, rfl, rfl⟩ := (argument?_eq_some_iff ht.right).1 hargument
  exact ⟨.ifStart hw hne hgap hu, rfl⟩

theorem fits_of_elseIf? (h : elseIf? t = some s) : Fits t s ∧ s.kind = .elseIf := by
  simp only [elseIf?, Option.bind_eq_bind, Option.bind_eq_some_iff, Option.pure_def,
    Option.some.injEq] at h
  obtain ⟨rest, helse, rest', hif, argument, hargument, rfl⟩ := h
  obtain ⟨w, hw, rfl⟩ := Text.dropKeyword?_eq_some_iff.1 helse
  obtain ⟨gap, hgap, u, rfl, htrim⟩ := exists_blanks rest
  rw [htrim] at hif
  obtain ⟨w', hw', rfl⟩ := Text.dropKeyword?_eq_some_iff.1 hif
  obtain ⟨gap', u, hne, hgap', hu, rfl, rfl⟩ := (argument?_eq_some_iff ht.right.right.right).1 hargument
  exact ⟨.elseIf hw hgap hw' hne hgap' hu, rfl⟩

theorem fits_of_image? (h : image? t = some s) : Fits t s ∧ s.kind = .image := by
  simp only [image?, Option.bind_eq_bind, Option.bind_eq_some_iff] at h
  obtain ⟨rest, hword, after, hcolon, h⟩ := h
  obtain rfl := Text.dropStart?_eq_some_iff.1 hword
  obtain ⟨gap, hgap, u, rfl, htrim⟩ := exists_blanks rest
  rw [htrim] at hcolon
  obtain rfl := Text.dropStart?_singleton_eq_some_iff.1 hcolon
  split at h
  · cases h
  · next hne =>
    obtain rfl := Option.some.inj h
    have hink : EndsInInk after := EndsInInk.right (t := [':']) ht.right.right
    rw [← hink.trim_eq] at hne ⊢
    refine ⟨.image hgap ?_, rfl⟩
    rintro rfl
    exact hne rfl

end Reads

theorem fits_of_otherwise? (h : otherwise? t = some s) : Fits t s ∧ s.kind = .otherwise := by
  unfold otherwise? at h
  split at h
  · next helse =>
    obtain rfl := Option.some.inj h
    obtain ⟨w, hw, rfl⟩ := Text.dropKeyword?_eq_some_iff.1 helse
    rw [List.append_nil]
    exact ⟨.otherwise hw, rfl⟩
  · cases h

theorem fits_of_ifEnd? (h : ifEnd? t = some s) : Fits t s ∧ s.kind = .ifEnd := by
  simp only [ifEnd?, Option.bind_eq_bind, Option.bind_eq_some_iff] at h
  obtain ⟨rest, hslash, h⟩ := h
  obtain rfl := Text.dropStart?_singleton_eq_some_iff.1 hslash
  obtain ⟨gap, hgap, u, rfl, htrim⟩ := exists_blanks rest
  rw [htrim] at h
  split at h
  · next hif =>
    obtain rfl := Option.some.inj h
    obtain ⟨w, hw, rfl⟩ := Text.dropKeyword?_eq_some_iff.1 hif
    rw [List.append_nil]
    exact ⟨.ifEnd hgap hw, rfl⟩
  · cases h

theorem fits_of_sectionStart? (h : sectionStart? t = some s) : Fits t s ∧ s.kind = .sectionStart := by
  unfold sectionStart? at h
  split at h
  · cases h
  · next c rest =>
    split at h
    · next hc =>
      obtain ⟨gap, hgap, u, rfl, htrim⟩ := exists_blanks rest
      rw [htrim] at h
      obtain ⟨argument, hargument, rfl⟩ := Option.map_eq_some_iff.1 h
      obtain ⟨hname, rfl⟩ := sectionName?_eq_some_iff.1 hargument
      exact ⟨.sectionStart hc hgap hname, rfl⟩
    · cases h

theorem fits_of_sectionEnd? (h : sectionEnd? t = some s) : Fits t s ∧ s.kind = .sectionEnd := by
  simp only [sectionEnd?, Option.bind_eq_bind, Option.bind_eq_some_iff] at h
  obtain ⟨rest, hslash, h⟩ := h
  obtain rfl := Text.dropStart?_singleton_eq_some_iff.1 hslash
  obtain ⟨gap, hgap, u, rfl, htrim⟩ := exists_blanks rest
  rw [htrim] at h
  split at h
  · next after hat =>
    obtain rfl := Text.dropStart?_singleton_eq_some_iff.1 hat
    obtain ⟨gap', hgap', u, rfl, htrim'⟩ := exists_blanks after
    rw [htrim'] at h
    simp only [Option.bind_eq_some_iff, Option.pure_def, Option.some.injEq] at h
    obtain ⟨argument, hargument, rfl⟩ := h
    obtain ⟨hname, rfl⟩ := sectionName?_eq_some_iff.1 hargument
    exact ⟨.sourceEnd hgap hgap' hname, rfl⟩
  · simp only [Option.bind_eq_some_iff, Option.pure_def, Option.some.injEq] at h
    obtain ⟨argument, hargument, rfl⟩ := h
    obtain ⟨hname, rfl⟩ := sectionName?_eq_some_iff.1 hargument
    exact ⟨.sectionEnd hgap hname, rfl⟩

theorem fits_of_pageBreak? (h : pageBreak? t = some s) : Fits t s ∧ s.kind = .pageBreak := by
  unfold pageBreak? at h
  split at h
  · next hword =>
    obtain rfl := Option.some.inj h
    exact ⟨.pageBreak hword, rfl⟩
  · cases h

theorem fits_of_pattern? (ht : EndsInInk t) (h : pattern? k t = some s) : Fits t s ∧ s.kind = k := by
  cases k with
  | field => cases h
  | ifStart => exact fits_of_ifStart? ht h
  | elseIf => exact fits_of_elseIf? ht h
  | otherwise => exact fits_of_otherwise? h
  | ifEnd => exact fits_of_ifEnd? h
  | sectionStart => exact fits_of_sectionStart? h
  | sectionEnd => exact fits_of_sectionEnd? h
  | image => exact fits_of_image? ht h
  | pageBreak => exact fits_of_pageBreak? h

/-! ### What a pattern has to read -/

theorem pattern?_of_fits (ht : EndsInInk t) (h : Fits t s) : pattern? s.kind t = some s := by
  cases h with
  | ifStart hw hne hgap hu =>
    have hargument := (argument?_eq_some_iff ht.right).2 ⟨_, _, hne, hgap, hu, rfl, rfl⟩
    simp only [pattern?, ifStart?, Text.dropKeyword?_eq_some_iff.2 ⟨_, hw, rfl⟩, Option.bind_eq_bind,
      Option.bind_some, hargument, Option.pure_def]
  | elseIf hw hgap hw' hne hgap' hu =>
    have hargument := (argument?_eq_some_iff ht.right.right.right).2 ⟨_, _, hne, hgap', hu, rfl, rfl⟩
    simp only [pattern?, elseIf?, Text.dropKeyword?_eq_some_iff.2 ⟨_, hw, rfl⟩, Option.bind_eq_bind,
      Option.bind_some, Text.trimStart_blanks hgap, hw'.trimStart_if,
      Text.dropKeyword?_eq_some_iff.2 ⟨_, hw', rfl⟩, hargument, Option.pure_def]
  | otherwise hw => exact if_pos (Text.dropKeyword?_eq_some_iff.2 ⟨_, hw, (List.append_nil _).symm⟩)
  | @ifEnd gap w hgap hw =>
    have htrim := hw.trimStart_if []
    rw [List.append_nil] at htrim
    simp only [pattern?, ifEnd?, Text.dropStart?_singleton_eq_some_iff.2 rfl, Option.bind_eq_bind,
      Option.bind_some, Text.trimStart_blanks hgap, htrim]
    exact if_pos (Text.dropKeyword?_eq_some_iff.2 ⟨w, hw, (List.append_nil w).symm⟩)
  | sectionStart hc hgap hname =>
    simp only [pattern?, sectionStart?, Text.trimStart_blanks hgap, hname.trimStart_eq, if_pos hc,
      sectionName?_eq_some_iff.2 ⟨hname, rfl⟩, Option.map_some]
  | @sectionEnd gap u hgap hname =>
    have hat : Text.dropStart? ['@'] u = none := by
      rw [Option.eq_none_iff_forall_ne_some]
      intro rest hrest
      rw [Text.dropStart?_singleton_eq_some_iff.1 hrest] at hname
      exact (hname.head '@' rfl).2 rfl
    simp only [pattern?, sectionEnd?, Text.dropStart?_singleton_eq_some_iff.2 rfl, Option.bind_eq_bind,
      Option.bind_some, Text.trimStart_blanks hgap, hname.trimStart_eq, hat,
      sectionName?_eq_some_iff.2 ⟨hname, rfl⟩, Option.pure_def]
  | @sourceEnd gap gap' u hgap hgap' hname =>
    have htrim : Text.trimStart ('@' :: (gap' ++ u)) = '@' :: (gap' ++ u) := rfl
    simp only [pattern?, sectionEnd?, Text.dropStart?_singleton_eq_some_iff.2 rfl, Option.bind_eq_bind,
      Option.bind_some, Text.trimStart_blanks hgap, htrim, Text.trimStart_blanks hgap',
      hname.trimStart_eq, sectionName?_eq_some_iff.2 ⟨hname, rfl⟩, Option.pure_def]
  | @image gap u hgap hu =>
    have hink : EndsInInk u := EndsInInk.right (t := [':']) ht.right.right
    have htrim : Text.trimStart (':' :: u) = ':' :: u := rfl
    simp only [pattern?, image?, Text.dropStart?_append, Option.bind_eq_bind,
      Option.bind_some, Text.trimStart_blanks hgap, htrim, Text.dropStart?_singleton_eq_some_iff.2 rfl]
    rw [if_neg (hink.trimStart_ne_nil hu), hink.trim_eq]
  | pageBreak hword => exact if_pos hword

/-- **A trimmed text is read by the pattern of a kind exactly if it is made so.** -/
theorem pattern?_eq_some_iff (ht : EndsInInk t) : pattern? k t = some s ↔ Fits t s ∧ s.kind = k := by
  constructor
  · exact fits_of_pattern? ht
  · rintro ⟨h, rfl⟩
    exact pattern?_of_fits ht h

/-! ## What a text begins with -/

/-- The kind, or the one of two kinds that begin alike. -/
def Kind.leading : Kind → Kind
  | .otherwise => .elseIf
  | .sectionEnd => .ifEnd
  | k => k

/-- The only kind, but for those that begin alike, that a text can be of by its first two characters. -/
def lead : Text → Kind
  | [] => .field
  | c :: rest =>
    if c = '/' then .ifEnd
    else if c = '#' ∨ c = '@' then .sectionStart
    else if c = 'P' then .pageBreak
    else if c = 'E' ∨ c = 'e' then .elseIf
    else if rest.head? = some 'M' then .image
    else .ifStart

theorem Fits.lead_eq (h : Fits t s) : lead t = s.kind.leading := by
  cases h with
  | ifStart hw _ _ _ =>
    obtain ⟨c, d, rfl, hc, hd⟩ := hw.exists_if
    rcases hc with rfl | rfl | rfl | rfl <;> rcases hd with rfl | rfl <;> rfl
  | elseIf hw _ _ _ _ _ =>
    obtain ⟨c, v, rfl, hc⟩ := hw.exists_else
    rcases hc with rfl | rfl <;> rfl
  | otherwise hw =>
    obtain ⟨c, v, rfl, hc⟩ := hw.exists_else
    rcases hc with rfl | rfl <;> rfl
  | sectionStart hc _ _ => rcases hc with rfl | rfl <;> rfl
  | pageBreak hword => rcases hword with rfl | rfl <;> rfl
  | _ => rfl

/-- `ELSE` with a condition is longer than the word. -/
theorem Fits.not_both_else (h : Fits t s) (h' : Fits t s') (hk : s.kind = .elseIf) :
    s'.kind ≠ .otherwise := by
  intro hk'
  have hshort : t.length = 4 := by
    cases h' with
    | otherwise hw => exact (List.Forall₂.length_eq hw).symm
    | _ => cases hk'
  cases h with
  | elseIf hw _ hw' _ _ _ =>
    have hfour := List.Forall₂.length_eq hw
    have htwo := List.Forall₂.length_eq hw'
    simp only [List.length_append, List.length_cons, List.length_nil] at hshort hfour htwo
    omega
  | _ => cases hk

/-- **Two patterns fit no text**, but those of the two ends. -/
theorem Fits.kind_eq_or (h : Fits t s) (h' : Fits t s') : s.kind = s'.kind ∨
    s.kind = .ifEnd ∧ s'.kind = .sectionEnd ∨ s.kind = .sectionEnd ∧ s'.kind = .ifEnd := by
  have hlead := h.lead_eq.symm.trans h'.lead_eq
  have helse := h.not_both_else h'
  have helse' := h'.not_both_else h
  generalize s.kind = k at *
  generalize s'.kind = k' at *
  cases k <;> cases k' <;> simp_all [Kind.leading]

/-- The end of a conditional reads like the end of a section. -/
theorem Matches.sectionEnd (h : Matches .ifEnd t) : Matches .sectionEnd t := by
  obtain ⟨s, h, hk⟩ := h
  cases h with
  | ifEnd hgap hw =>
    obtain ⟨c, d, rfl, hc, hd⟩ := hw.exists_if
    refine ⟨_, .sectionEnd hgap ⟨?_, ?_⟩, rfl⟩
    · rcases hc with rfl | rfl | rfl | rfl <;> decide
    · rw [List.forall_mem_singleton]
      rcases hd with rfl | rfl <;> decide
  | _ => cases hk

/-! ## Patterns in some order -/

/-- What the pattern of a kind makes of a text. It makes no section end of the name `IF`. -/
def accepted? : Kind → Text → Option Sense
  | .sectionEnd => namedSectionEnd?
  | k => pattern? k

/-- What a trimmed text says if the patterns are tried in the given order. -/
def senseIn (order : List Kind) (t : Text) : Sense :=
  (order.findSome? fun k => accepted? k t).getD { kind := .field, argument := t }

/-- The order in which the patterns are tried. -/
def patternOrder : List Kind :=
  [.elseIf, .ifStart, .otherwise, .ifEnd, .sectionStart, .sectionEnd, .image, .pageBreak]

theorem senseIn_cons (k : Kind) (order : List Kind) (t : Text) :
    senseIn (k :: order) t = (accepted? k t).getD (senseIn order t) := by
  rw [senseIn, List.findSome?_cons]
  cases accepted? k t <;> rfl

theorem classifyTrimmed_eq (t : Text) : classifyTrimmed t = senseIn patternOrder t := by
  have hnil : senseIn [] t = { kind := .field, argument := t } := rfl
  simp [classifyTrimmed, patternOrder, senseIn_cons, hnil, accepted?, pattern?]

/-- The order has all patterns, and that of the end of a conditional before that of a section's. -/
structure IsPatternOrder (order : List Kind) : Prop where
  mem : ∀ k, k ≠ .field → k ∈ order
  ends : order.idxOf .ifEnd < order.idxOf .sectionEnd

theorem isPatternOrder_patternOrder : IsPatternOrder patternOrder where
  mem k hk := by cases k <;> first | exact absurd rfl hk | decide
  ends := by decide

theorem accepted?_eq_some_iff (ht : EndsInInk t) : accepted? k t = some s ↔
    (Fits t s ∧ s.kind = k) ∧ (k = .sectionEnd → Text.upper s.argument ≠ ['I', 'F']) := by
  by_cases hk : k = .sectionEnd
  · subst hk
    rw [accepted?, namedSectionEnd?, Option.filter_eq_some_iff, ← pattern?_eq_some_iff ht]
    simp [pattern?]
  · rw [← pattern?_eq_some_iff ht]
    simp [accepted?, hk]

/-- The pattern of a section's end is reached if that of a conditional's does not fit. -/
def IsReached (t : Text) (k : Kind) : Prop :=
  k = .sectionEnd → ¬ Matches .ifEnd t

variable {order : List Kind}

theorem IsPatternOrder.isReached (h : IsPatternOrder order) {before after : List Kind}
    (ho : order = before ++ k :: after) (hnone : ∀ k' ∈ before, accepted? k' t = none) (ht : EndsInInk t) :
    IsReached t k := by
  rintro rfl ⟨s, hs, hk⟩
  have hif : accepted? .ifEnd t = some s := (accepted?_eq_some_iff ht).2 ⟨⟨hs, hk⟩, nofun⟩
  have hmem : Kind.ifEnd ∉ before := fun hmem => by simp [hnone _ hmem] at hif
  have hends := h.ends
  rw [ho, List.idxOf_append_of_notMem hmem, List.idxOf_append] at hends
  split at hends
  · next hend =>
    have := List.idxOf_lt_length_of_mem hend
    omega
  · rw [List.idxOf_cons_self] at hends
    omega

theorem accepted?_unique (ht : EndsInInk t) (h : accepted? k t = some s) (hr : IsReached t k)
    (h' : accepted? k' t = some s') (hr' : IsReached t k') : s = s' := by
  obtain ⟨⟨hfits, rfl⟩, -⟩ := (accepted?_eq_some_iff ht).1 h
  obtain ⟨⟨hfits', rfl⟩, -⟩ := (accepted?_eq_some_iff ht).1 h'
  rcases hfits.kind_eq_or hfits' with hk | ⟨hk, hk'⟩ | ⟨hk, hk'⟩
  · rw [hk] at h
    exact Option.some.inj (h.symm.trans h')
  · exact absurd ⟨s, hfits, hk⟩ (hr' hk')
  · exact absurd ⟨s', hfits', hk'⟩ (hr hk)

/-- **What is found does not depend on the order.** -/
theorem IsPatternOrder.findSome?_eq_some_iff (h : IsPatternOrder order) (ht : EndsInInk t) :
    order.findSome? (fun k => accepted? k t) = some s ↔ ∃ k, accepted? k t = some s ∧ IsReached t k := by
  have hfound : ∀ s, order.findSome? (fun k => accepted? k t) = some s →
      ∃ k, accepted? k t = some s ∧ IsReached t k := by
    intro s hs
    obtain ⟨before, k, after, ho, hk, hnone⟩ := List.findSome?_eq_some_iff.1 hs
    exact ⟨k, hk, h.isReached ho hnone ht⟩
  constructor
  · exact hfound s
  · rintro ⟨k, hk, hr⟩
    have hfield : k ≠ .field := by
      rintro rfl
      cases hk
    have hsome : (order.findSome? fun k => accepted? k t).isSome :=
      List.findSome?_isSome_iff.2 ⟨k, h.mem k hfield, by rw [hk]; rfl⟩
    obtain ⟨s', hs'⟩ := Option.isSome_iff_exists.1 hsome
    obtain ⟨k', hk', hr'⟩ := hfound s' hs'
    rw [hs', accepted?_unique ht hk' hr' hk hr]

/-- Two orders with all patterns say the same of a text. -/
theorem IsPatternOrder.senseIn_eq {order' : List Kind} (h : IsPatternOrder order)
    (h' : IsPatternOrder order') (ht : EndsInInk t) : senseIn order t = senseIn order' t := by
  rw [senseIn, senseIn]
  congr 1
  ext s
  rw [h.findSome?_eq_some_iff ht, h'.findSome?_eq_some_iff ht]

variable {inner : Text}

/-- A marker that is no field says what its text is made of. -/
theorem accepted?_classify (h : (classify inner).kind ≠ .field) :
    ∃ k, accepted? k (Text.trim inner) = some (classify inner) ∧ IsReached (Text.trim inner) k := by
  have hink := Text.endsInInk_of_trim (Text.trim_trim inner)
  rw [classify, classifyTrimmed_eq, senseIn] at h ⊢
  cases hs : patternOrder.findSome? fun k => accepted? k (Text.trim inner) with
  | none =>
    rw [hs] at h
    exact absurd rfl h
  | some s => exact (isPatternOrder_patternOrder.findSome?_eq_some_iff hink).1 hs

theorem classify_eq_of_accepted? (h : accepted? k (Text.trim inner) = some s)
    (hr : IsReached (Text.trim inner) k) : classify inner = s := by
  have hink := Text.endsInInk_of_trim (Text.trim_trim inner)
  rw [classify, classifyTrimmed_eq, senseIn,
    (isPatternOrder_patternOrder.findSome?_eq_some_iff hink).2 ⟨k, h, hr⟩]
  rfl

/-! ## Ends of sections -/

/-- The text between the braces of the marker that ends a section: a slash before the name. -/
def Sense.closer (s : Sense) : Text :=
  '/' :: ((if s.fromSource then ['@'] else []) ++ s.argument)

theorem Fits.isSectionName (h : Fits t s) (hk : s.kind = .sectionStart) : IsSectionName s.argument := by
  cases h with
  | sectionStart _ _ hname => exact hname
  | _ => cases hk

theorem isSectionName_classify (h : (classify inner).kind = .sectionStart) :
    IsSectionName (classify inner).argument := by
  have hink := Text.endsInInk_of_trim (Text.trim_trim inner)
  obtain ⟨k, hk, -⟩ := accepted?_classify (by simp [h] : (classify inner).kind ≠ .field)
  exact ((accepted?_eq_some_iff hink).1 hk).1.1.isSectionName h

theorem fits_closer (h : IsSectionName s.argument) :
    Fits s.closer { kind := .sectionEnd, argument := s.argument, fromSource := s.fromSource } := by
  unfold Sense.closer
  cases s.fromSource with
  | false => exact @Fits.sectionEnd [] _ (by simp) h
  | true => exact @Fits.sourceEnd [] [] _ (by simp) (by simp) h

theorem trim_closer (h : IsSectionName s.argument) : Text.trim s.closer = s.closer := by
  have hblank : ∀ c ∈ s.closer, isBlank c = false := by
    intro c hc
    rw [Sense.closer, List.mem_cons, List.mem_append] at hc
    rcases hc with rfl | hc | hc
    · decide
    · split at hc
      · obtain rfl := List.mem_singleton.1 hc
        decide
      · cases hc
    · exact h.isBlank_eq_false c hc
  exact Text.trim_eq_self (fun c hc => hblank c (List.mem_of_mem_head? hc))
    fun c hc => hblank c (List.mem_of_getLast? hc)

/-- What ends sections has no pattern before its own, and is not called `IF`. -/
theorem of_classify_sectionEnd (h : (classify inner).kind = .sectionEnd) :
    ¬ Matches .ifEnd (Text.trim inner) ∧ Text.upper (classify inner).argument ≠ ['I', 'F'] := by
  have hink := Text.endsInInk_of_trim (Text.trim_trim inner)
  obtain ⟨k, hk, hr⟩ := accepted?_classify (by simp [h] : (classify inner).kind ≠ .field)
  obtain ⟨⟨-, rfl⟩, hname⟩ := (accepted?_eq_some_iff hink).1 hk
  exact ⟨hr h, hname h⟩

/-- A section is closed by its name behind a slash, unless that ends a conditional or is no name. -/
theorem closes_closer_iff (h : (classify inner).kind = .sectionStart) (start stop : Nat) :
    (ofInner (classify inner).closer stop).closes (ofInner inner start) ↔
      ¬ Matches .ifEnd (classify inner).closer ∧
        Text.upper (classify inner).argument ≠ ['I', 'F'] := by
  have hname := isSectionName_classify h
  have htrim := trim_closer hname
  have hcloses : (ofInner (classify inner).closer stop).closes (ofInner inner start) ↔
      (classify (classify inner).closer).kind = .sectionEnd ∧
        (classify (classify inner).closer).argument = (classify inner).argument ∧
        (classify (classify inner).closer).fromSource = (classify inner).fromSource := by
    simp [closes, sameSection, ofInner, h]
  rw [hcloses]
  constructor
  · rintro ⟨hend, hargument, -⟩
    have := of_classify_sectionEnd hend
    rwa [htrim, hargument] at this
  · rintro ⟨hif, hupper⟩
    have hink := Text.endsInInk_of_trim htrim
    have haccepted := (accepted?_eq_some_iff hink (k := .sectionEnd)).2
      ⟨⟨fits_closer hname, rfl⟩, fun _ => hupper⟩
    rw [classify_eq_of_accepted? (htrim.symm ▸ haccepted) fun _ => htrim.symm ▸ hif]
    exact ⟨rfl, rfl, rfl⟩

/-- A section may be called `İf`, but what should end it ends a conditional. -/
example : (classify "#İf").kind = .sectionStart ∧ (classify "/İf").kind = .ifEnd := by decide +kernel

/-- A source may be called `IF`, but what should end it is a field. -/
example : (classify "@IF").kind = .sectionStart ∧ (classify "/@IF").kind = .field := by decide +kernel

/-! ## Classification -/

/-- **Classification does not hang on the order of the patterns**: it is told from what the trimmed text
is made of. Two patterns fit it only if it ends a conditional, and then it reads like the end of a section
too. So these two have to be tried in order, and a section of any other name is closed by its name. -/
theorem classify_orderless (inner : Text) :
    (∀ other, Text.trim other = Text.trim inner → classify other = classify inner) ∧
      (∀ k s, pattern? k (Text.trim inner) = some s ↔ Fits (Text.trim inner) s ∧ s.kind = k) ∧
      (∀ k k', Matches k (Text.trim inner) → Matches k' (Text.trim inner) → k = k' ∨
        k = .ifEnd ∧ k' = .sectionEnd ∨ k = .sectionEnd ∧ k' = .ifEnd) ∧
      (Matches .ifEnd (Text.trim inner) → Matches .sectionEnd (Text.trim inner)) ∧
      (∀ order, IsPatternOrder order → classify inner = senseIn order (Text.trim inner)) ∧
      ((classify inner).kind = .sectionStart → ∀ start stop,
        ((ofInner (classify inner).closer stop).closes (ofInner inner start) ↔
          ¬ Matches .ifEnd (classify inner).closer ∧
            Text.upper (classify inner).argument ≠ ['I', 'F'])) := by
  have hink := Text.endsInInk_of_trim (Text.trim_trim inner)
  refine ⟨?_, ?_, ?_, Matches.sectionEnd, ?_, closes_closer_iff⟩
  · intro other hother
    rw [classify, classify, hother]
  · intro k s
    exact pattern?_eq_some_iff hink
  · rintro k k' ⟨s, hs, rfl⟩ ⟨s', hs', rfl⟩
    exact hs.kind_eq_or hs'
  · intro order horder
    rw [classify, classifyTrimmed_eq]
    exact isPatternOrder_patternOrder.senseIn_eq horder hink

/-- The items start a section, and their name behind a slash closes it. -/
theorem classify_orderless_items : (classify "#Items").kind = .sectionStart ∧
    (ofInner "/Items" 10).closes (ofInner "#Items" 0) := by
  obtain ⟨-, -, -, -, -, hitems⟩ := classify_orderless "#Items"
  obtain ⟨-, hpattern, -⟩ := classify_orderless "/Items"
  have hstart : (classify "#Items").kind = .sectionStart := by decide +kernel
  refine ⟨hstart, (hitems hstart 0 10).2 ⟨?_, by decide +kernel⟩⟩
  rintro ⟨s, hs, hk⟩
  have hnone : pattern? .ifEnd (Text.trim "/Items") = none := by decide +kernel
  have hsome := (hpattern .ifEnd s).2 ⟨hs, hk⟩
  cases hnone.symm.trans hsome

end Marker
end MailMerge
