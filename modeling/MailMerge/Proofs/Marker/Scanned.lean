import MailMerge.Proofs.Marker.Token

/-!
# A text cut at its markers

A text is searched for markers from left to right. A marker begins at the first opening braces behind
the marker before it, and ends behind the first closing braces that follow these. So the gaps between
markers hold no opening braces, behind the last marker no closing braces follow opening ones, and the
gaps and the markers make up the text.

The ways to look for markers that do not list all of them give up early on texts without braces. They
agree with the list.

**`cutAt_scan`**: each marker is the first one from the end of the marker before it on.

**`scan_cuts`**: the list of markers, the markers of some kinds, and lone markers.
-/

namespace MailMerge

/-! ## The first place of a part -/

namespace Text

variable {t before gap part after : Text} {offset place p : Nat}

/-- The first place of a part in a text, from an offset on. -/
structure StandsFirst (t : Text) (offset place : Nat) (part : Text) : Prop where
  le : offset ≤ place
  standsAt : StandsAt t place part
  first : ∀ p, offset ≤ p → StandsAt t p part → place ≤ p

/-- What stands behind a text stands in what follows the text. -/
theorem exists_of_standsAt_append (h : StandsAt (before ++ t) p part) (hp : before.length ≤ p) :
    ∃ a b, t = a ++ part ++ b ∧ p = before.length + a.length := by
  obtain ⟨x, b, he, rfl⟩ := h
  obtain ⟨a, rfl⟩ : before <+: x :=
    List.prefix_of_prefix_length_le ⟨t, rfl⟩ ⟨part ++ b, by rw [he, List.append_assoc]⟩ hp
  refine ⟨a, b, ?_, List.length_append⟩
  rw [List.append_assoc, List.append_assoc, List.append_cancel_left_eq] at he
  rw [he, List.append_assoc]

theorem StandsAt.le_length (h : StandsAt t p part) : p + part.length ≤ t.length := by
  obtain ⟨a, b, rfl, rfl⟩ := h
  simp only [List.length_append]
  omega

/-- A part that follows a text free of it stands there for the first time. -/
theorem FreeOf.standsFirst (h : FreeOf part gap) (before after : Text) :
    StandsFirst (before ++ (gap ++ part ++ after)) before.length (before.length + gap.length) part where
  le := Nat.le_add_right ..
  standsAt := ⟨before ++ gap, after, by simp only [List.append_assoc], List.length_append⟩
  first p hp hs := by
    obtain ⟨a, b, he, rfl⟩ := exists_of_standsAt_append hs hp
    have hcut := h.cutFirst? after
    rw [he] at hcut
    have := (prefix_of_cutFirst? hcut).length_le
    omega

theorem slice_append_drop (h : offset ≤ place) (hl : place ≤ t.length) :
    slice t offset place ++ t.drop place = t.drop offset := by
  have hlen : offset ≤ (t.take place).length := by
    rw [List.length_take]
    omega
  rw [slice, ← List.drop_append_of_le_length hlen, List.take_append_drop]

/-- Pieces of a text that follow each other make up a piece. -/
theorem slice_append_slice {i j k : Nat} (hij : i ≤ j) (hjk : j ≤ k) (hk : k ≤ t.length) :
    slice t i j ++ slice t j k = slice t i k := by
  have hlen : (t.take k).length = k := List.length_take_of_le hk
  have h := slice_append_drop (t := t.take k) hij (by omega)
  rwa [slice, List.take_take, Nat.min_eq_left hjk] at h

/-- A part does not stand before its first place. -/
theorem StandsFirst.contains_slice (h : StandsFirst t offset place part) (hne : part ≠ []) :
    contains part (slice t offset place) = false := by
  rw [contains_eq_false_iff]
  intro a b he
  have hl := h.standsAt.le_length
  have hle := h.le
  have hlen : (slice t offset place).length = place - offset := by
    rw [slice, List.length_drop, List.length_take]
    omega
  have hstands : StandsAt t (offset + a.length) part := by
    refine ⟨t.take offset ++ a, b ++ t.drop place, ?_, ?_⟩
    · have hsplit := slice_append_drop hle (Nat.le_of_add_right_le hl)
      rw [he] at hsplit
      calc
        t = t.take offset ++ t.drop offset := (List.take_append_drop offset t).symm
        _ = t.take offset ++ a ++ part ++ (b ++ t.drop place) := by
          rw [← hsplit]
          simp only [List.append_assoc]
    · rw [List.length_append, List.length_take]
      omega
  have hfirst := h.first _ (Nat.le_add_right ..) hstands
  have hpos := List.length_pos_iff.2 hne
  have := congrArg List.length he
  simp only [List.length_append] at this
  omega

end Text

namespace Marker

open Text (StandsAt StandsFirst FreeOf slice)

variable {t : Text} {offset : Nat} {m : Marker} {ms : List Marker}

/-! ## Cuts -/

/-- The markers are those of the text from an offset on. Each one begins at the first opening braces
from the end of the one before on, ends behind the first closing braces that follow, and says what is
between these. Behind the last one, no closing braces follow opening ones. -/
def CutAt (t : Text) : (offset : Nat) → List Marker → Prop
  | offset, [] => ∀ p q, offset ≤ p → StandsAt t p opening →
      p + opening.length ≤ q → ¬ StandsAt t q closing
  | offset, m :: ms =>
    StandsFirst t offset m.start opening ∧
    (∃ place, StandsFirst t (m.start + opening.length) place closing ∧
      m.stop = place + closing.length) ∧
    (∃ inner, m = ofInner inner m.start ∧ slice t m.start m.stop = enclose inner) ∧
    CutAt t m.stop ms

/-- The texts before the markers, each from the end of the marker before on, and the text behind the
last marker. -/
def gaps (t : Text) : (offset : Nat) → List Marker → List Text
  | offset, [] => [t.drop offset]
  | offset, m :: ms => slice t offset m.start :: gaps t m.stop ms

/-- Without a next marker, no closing braces follow opening ones. -/
theorem cutAt_nil_of_next?_none (before : Text) (h : next? t = none) :
    CutAt (before ++ t) before.length [] := by
  intro p q hp hopening hq hclosing
  obtain ⟨a, b, he, rfl⟩ := Text.exists_of_standsAt_append hopening hp
  have hfull : before ++ t = (before ++ a ++ opening) ++ b := by
    rw [he]
    simp only [List.append_assoc]
  rw [hfull] at hclosing
  obtain ⟨inner, after, rfl, -⟩ := Text.exists_of_standsAt_append hclosing (by
    rw [List.length_append, List.length_append]
    exact hq)
  exact next?_eq_none_iff.1 h a inner after (by rw [he, enclose]; simp only [List.append_assoc])

theorem cutAt_locate (before t : Text) :
    CutAt (before ++ t) before.length (locate before.length (segments t).1) := by
  fun_induction segments t generalizing before with
  | case1 t h => exact cutAt_nil_of_next?_none before h
  | case2 t gap inner after h rest tail hr ih =>
    obtain ⟨hgap, hinner, rfl⟩ := next?_eq_some_iff.1 h
    have hbegin := hgap.standsFirst before (inner ++ closing ++ after)
    have hend := hinner.standsFirst (before ++ gap ++ opening) after
    have hrest := ih (before ++ gap ++ enclose inner)
    rw [hr] at hrest
    have htext : before ++ (gap ++ enclose inner ++ after) =
        before ++ gap ++ enclose inner ++ after := by
      simp only [List.append_assoc]
    refine ⟨?_, ⟨before.length + gap.length + opening.length + inner.length, ?_, ?_⟩,
      ⟨inner, rfl, ?_⟩, ?_⟩
    · rw [enclose]
      simpa only [List.append_assoc, ofInner] using hbegin
    · rw [enclose]
      simpa only [List.append_assoc, List.length_append, Nat.add_assoc, ofInner] using hend
    · simp only [ofInner, enclose, List.length_append]
      omega
    · exact StandsAt.slice ⟨before ++ gap, after, htext, List.length_append⟩
    · rw [htext]
      simpa only [List.length_append, ofInner] using hrest

/-- **Each marker is the first one from the end of the marker before it on.** -/
theorem cutAt_scan (t : Text) : CutAt t 0 (scan t) :=
  cutAt_locate [] t

/-! ## What is between the markers -/

theorem CutAt.start_lt_stop (h : CutAt t offset (m :: ms)) :
    offset ≤ m.start ∧ m.start < m.stop ∧ m.stop ≤ t.length := by
  obtain ⟨hbegin, ⟨place, hend, hstop⟩, -, -⟩ := h
  have hpos : 0 < opening.length := by decide
  have hle := hend.le
  have hl := hend.standsAt.le_length
  exact ⟨hbegin.le, by omega, by omega⟩

theorem CutAt.slice_eq (h : CutAt t offset (m :: ms)) : slice t m.start m.stop = m.text := by
  obtain ⟨-, -, ⟨inner, hm, hslice⟩, -⟩ := h
  rw [hslice, hm]
  rfl

theorem CutAt.forall_mem (h : CutAt t offset ms) : ∀ m ∈ ms,
    offset ≤ m.start ∧ m.start < m.stop ∧ m.stop ≤ t.length ∧ slice t m.start m.stop = m.text := by
  induction ms generalizing offset with
  | nil => simp
  | cons m ms ih =>
    obtain ⟨hle, hlt, hl⟩ := h.start_lt_stop
    have htext := h.slice_eq
    obtain ⟨-, -, -, hrest⟩ := h
    rw [List.forall_mem_cons]
    refine ⟨⟨hle, hlt, hl, htext⟩, fun m' hm' => ?_⟩
    obtain ⟨hle', hm'⟩ := ih hrest m' hm'
    exact ⟨by omega, hm'⟩

/-- Markers follow each other. -/
theorem CutAt.pairwise (h : CutAt t offset ms) : ms.Pairwise fun m m' => m.stop ≤ m'.start := by
  induction ms generalizing offset with
  | nil => exact .nil
  | cons m ms ih =>
    obtain ⟨-, -, -, hrest⟩ := h
    exact .cons (fun m' hm' => (hrest.forall_mem m' hm').1) (ih hrest)

theorem pairwise_scan (t : Text) : (scan t).Pairwise fun m m' => m.stop ≤ m'.start :=
  (cutAt_scan t).pairwise

theorem gaps_ne_nil (t : Text) (offset : Nat) (ms : List Marker) : gaps t offset ms ≠ [] := by
  cases ms <;> simp [gaps]

/-- No gap before a marker holds opening braces. -/
theorem CutAt.contains_gap (h : CutAt t offset ms) :
    ∀ gap ∈ (gaps t offset ms).dropLast, Text.contains opening gap = false := by
  induction ms generalizing offset with
  | nil => simp [gaps]
  | cons m ms ih =>
    obtain ⟨hbegin, -, -, hrest⟩ := h
    rw [gaps, List.dropLast_cons_of_ne_nil (gaps_ne_nil t m.stop ms), List.forall_mem_cons]
    exact ⟨hbegin.contains_slice (by decide), ih hrest⟩

/-- The gaps and the markers, in turn, make up the text. -/
theorem CutAt.flatten_gaps (h : CutAt t offset ms) :
    (List.zipWith (· ++ ·) (gaps t offset ms) (ms.map (·.text) ++ [[]])).flatten = t.drop offset := by
  induction ms generalizing offset with
  | nil => simp [gaps]
  | cons m ms ih =>
    obtain ⟨hle, hlt, hl⟩ := h.start_lt_stop
    have htext := h.slice_eq
    obtain ⟨-, -, -, hrest⟩ := h
    rw [gaps, List.map_cons, List.cons_append, List.zipWith_cons_cons, List.flatten_cons, ih hrest,
      ← htext, List.append_assoc, Text.slice_append_drop (Nat.le_of_lt hlt) hl,
      Text.slice_append_drop hle (by omega)]

/-! ## Is there a marker? -/

theorem scan_eq_nil_iff : scan t = [] ↔ next? t = none := by
  rw [scan, segments]
  split
  · next h => simp [locate, h]
  · next gap inner after h => simp [locate, h]

theorem contains_of_next? (h : next? t ≠ none) : Text.contains opening t = true := by
  obtain ⟨⟨gap, inner, after⟩, hn⟩ := Option.ne_none_iff_exists'.1 h
  rw [Text.contains_iff]
  refine ⟨gap, inner ++ closing ++ after, ?_⟩
  rw [eq_append_of_next? hn, enclose]
  simp only [List.append_assoc]

/-- A text without opening braces has no marker. -/
theorem scan_eq_nil_of_contains_eq_false (h : Text.contains opening t = false) : scan t = [] := by
  rw [scan_eq_nil_iff]
  by_contra hn
  rw [contains_of_next? hn] at h
  cases h

theorem hasMarker_iff : hasMarker t = true ↔ scan t ≠ [] := by
  rw [hasMarker, Bool.and_eq_true, Option.isSome_iff_ne_none, Ne, Ne, scan_eq_nil_iff]
  exact ⟨fun h => h.2, fun h => ⟨contains_of_next? h, h⟩⟩

theorem hasAny_iff {kinds : Kind → Bool} : hasAny kinds t = true ↔ scanFor kinds t ≠ [] := by
  rw [hasAny, Bool.and_eq_true, Bool.not_eq_true', List.isEmpty_eq_false_iff]
  refine ⟨fun h => h.2, fun h => ⟨?_, h⟩⟩
  by_contra hc
  rw [scanFor, scan_eq_nil_of_contains_eq_false (Bool.eq_false_iff.2 hc)] at h
  exact h rfl

/-! ## Lone markers -/

theorem startsWith_append (part t : Text) : Text.startsWith part (part ++ t) = true := by
  rw [Text.startsWith, Text.dropStart?_append]
  rfl

theorem startsWith_enclose (inner : Text) : Text.startsWith opening (enclose inner) = true := by
  rw [enclose, List.append_assoc]
  exact startsWith_append opening _

theorem endsWith_enclose (inner : Text) : Text.endsWith closing (enclose inner) = true := by
  rw [Text.endsWith, enclose, List.reverse_append]
  exact startsWith_append closing.reverse _

/-- The only marker of a text is all of it, if its text is. -/
theorem lone?_eq_some_iff : lone? t = some m ↔ scan (Text.trim t) = [m] ∧ m.text = Text.trim t := by
  generalize htrim : Text.trim t = u
  have hcut := cutAt_scan u
  rw [lone?, htrim]
  constructor
  · intro h
    split at h
    · split at h
      · next m' hscan =>
        obtain ⟨⟨hstart, hstop⟩, hm⟩ := Option.ite_none_right_eq_some.1 h
        obtain rfl := Option.some.inj hm
        rw [hscan] at hcut
        refine ⟨hscan, ?_⟩
        rw [← hcut.slice_eq, hstart, hstop, slice, List.take_length, List.drop_zero]
      · cases h
    · cases h
  · rintro ⟨hscan, htext⟩
    rw [hscan] at hcut
    obtain ⟨-, hlt, hl⟩ := hcut.start_lt_stop
    have hlen := congrArg List.length hcut.slice_eq
    rw [htext, slice, List.length_drop, List.length_take] at hlen
    obtain ⟨-, -, ⟨inner, hm, -⟩, -⟩ := hcut
    have hinner : u = enclose inner := by
      rw [← htext, hm]
      rfl
    rw [hscan, hinner, startsWith_enclose, endsWith_enclose, ← hinner]
    exact (if_pos rfl).trans (if_pos ⟨by omega, by omega⟩)

/-! ## The scanner as a whole -/

/-- **A text is cut at its markers, and nothing of it is lost.** The markers of some kinds are those
among all markers, a text has a marker if the list is not empty, and it is a lone marker if, but for
blanks around it, the list holds one marker that is all of it. -/
theorem scan_cuts (t : Text) :
    CutAt t 0 (scan t) ∧
    (scan t).Pairwise (fun m m' => m.stop ≤ m'.start) ∧
    (∀ m ∈ scan t, m.start < m.stop ∧ m.stop ≤ t.length ∧ slice t m.start m.stop = m.text) ∧
    (∀ gap ∈ (gaps t 0 (scan t)).dropLast, Text.contains opening gap = false) ∧
    (List.zipWith (· ++ ·) (gaps t 0 (scan t)) ((scan t).map (·.text) ++ [[]])).flatten = t ∧
    (∀ kinds, (scanFor kinds t).Sublist (scan t) ∧
      ∀ m, m ∈ scanFor kinds t ↔ m ∈ scan t ∧ kinds m.kind = true) ∧
    (hasMarker t = true ↔ scan t ≠ []) ∧
    (∀ kinds, hasAny kinds t = true ↔ scanFor kinds t ≠ []) ∧
    ∀ m, lone? t = some m ↔ scan (Text.trim t) = [m] ∧ m.text = Text.trim t := by
  have h := cutAt_scan t
  refine ⟨h, pairwise_scan t, fun m hm => (h.forall_mem m hm).2, h.contains_gap, h.flatten_gaps,
    fun kinds => ⟨List.filter_sublist, fun m => List.mem_filter⟩, hasMarker_iff, fun _ => hasAny_iff,
    fun m => lone?_eq_some_iff⟩

/-- Of three braces the first two open, and braces that are not closed are part of the rest. -/
example :
    let rest : Text := "\x7d " ++ opening ++ "c"
    let t : Text := "a " ++ enclose "\x7bb" ++ rest
    scan t = [ofInner "\x7bb" 2] ∧ gaps t 0 (scan t) = ["a ".toList, rest] := by
  decide +kernel

end Marker
end MailMerge
