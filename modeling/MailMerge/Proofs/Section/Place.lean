import MailMerge.Proofs.Section.Strays
import MailMerge.Proofs.Text.Calm

/-!
# Places of markers in a row

A row's text is the texts of its cells, set apart by tabs. A marker is looked for in the text of the
row and taken out of the text of a cell, by what it says and not by its offset. Both meet at a place:
the cells before it, the text before and after it in its own cell, and the cells after it.

**`Place.tokens_strip`**: a row without a marker has all other tokens of the row, but for blanks.

**`Place.cellTexts_stripFirst`**, **`Place.cellTexts_stripLast`**: what is taken out of the cells is the
first, or the last, occurrence of a text in them.
-/

namespace MailMerge.Section

open Marker (Token tokens joinTokens charTokens Sealed ofInner locateTokens)

variable {before marker after : Text} {cells : List Text}

/-! ## What goes with a marker -/

/-- A text without a marker. If there are several lines, and nothing but blanks stands on the marker's
line beside it, the line is left out. -/
def leaveOut (before marker after : Text) : Text :=
  if Text.allBlank ((Text.lines before).getLastD []) ∧ Text.allBlank ((Text.lines after).headD []) ∧
      '\n' ∈ before ++ marker ++ after then
    Text.unlines ((Text.lines before).dropLast ++ (Text.lines after).tail)
  else
    before ++ after

theorem withoutMarker_eq (before marker after : Text) :
    withoutMarker before marker after = leaveOut before marker after := by
  unfold withoutMarker leaveOut
  cases hl : Text.cutLast? ['\n'] before with
  | none =>
    rw [Text.lines_of_notMem (Text.cutLast?_eq_none_iff.1 hl)]
    cases hf : Text.cutFirst? ['\n'] after with
    | none =>
      rw [Text.lines_of_notMem (Text.cutFirst?_singleton_eq_none_iff.1 hf)]
      rfl
    | some q =>
      rw [Text.lines_of_cutFirst? hf]
      simp
  | some p =>
    rw [Text.lines_of_cutLast? hl]
    cases hf : Text.cutFirst? ['\n'] after with
    | none =>
      rw [Text.lines_of_notMem (Text.cutFirst?_singleton_eq_none_iff.1 hf)]
      simp
    | some q =>
      rw [Text.lines_of_cutFirst? hf]
      simp [Text.unlines_append (Text.lines_ne_nil p.1) (Text.lines_ne_nil q.2)]

/-- What stands behind a further marker stays behind it. -/
theorem exists_leaveOut_append (before marker mid inner after : Text) :
    ∃ z, leaveOut before marker (mid ++ Marker.enclose inner ++ after) =
      z ++ Marker.enclose inner ++ after := by
  obtain ⟨x, x', y', y, -, hy, -, hb, he, -⟩ :=
    exists_of_withoutMarker before marker (mid ++ Marker.enclose inner ++ after)
  rw [withoutMarker_eq] at he
  rw [List.append_assoc] at hy
  rcases List.append_eq_append_iff.1 hy with ⟨as, rfl, hrest⟩ | ⟨bs, rfl, rfl⟩
  · -- The blanks would take in the opening braces.
    cases as with
    | nil =>
      rw [List.nil_append] at hrest
      exact ⟨x, by rw [he, ← hrest]; simp⟩
    | cons c as =>
      obtain rfl : '{' = c := (List.cons.inj hrest).1
      have := plain_of_allBlank hb '{' (by simp)
      exact absurd rfl this.1
  · exact ⟨x ++ bs, by rw [he]; simp⟩

/-! ## Places -/

/-- The text of a row with the given texts in its cells. -/
def rowText (cells : List Text) : Text :=
  Text.join ['\t'] cells

/-- A place in the cells of a row: the cells before it, the text before and after it in its own cell,
and the cells after it. -/
structure Place where
  above : List Text
  before : Text
  after : Text
  below : List Text

namespace Place

variable {p q : Place} {m : Marker}

/-- The text of the row before the place. -/
def lead (p : Place) : Text :=
  p.above.flatMap (· ++ ['\t']) ++ p.before

/-- The text of the row after the place. -/
def trail (p : Place) : Text :=
  p.after ++ p.below.flatMap ('\t' :: ·)

/-- The cells with a text at the place. -/
def fill (p : Place) (x : Text) : List Text :=
  p.above ++ (p.before ++ x ++ p.after) :: p.below

/-- The cells without the marker at the place. -/
def strip (p : Place) (marker : Text) : List Text :=
  p.above ++ leaveOut p.before marker p.after :: p.below

theorem rowText_append (above : List Text) (x : Text) (below : List Text) :
    rowText (above ++ x :: below) =
      above.flatMap (· ++ ['\t']) ++ x ++ below.flatMap ('\t' :: ·) :=
  Text.join_append_cons ['\t'] above x below

theorem rowText_fill (p : Place) (x : Text) : rowText (p.fill x) = p.lead ++ x ++ p.trail := by
  rw [fill, rowText_append]
  simp [lead, trail]

/-- **A row without a marker has all other tokens of the row**, but for blanks. -/
theorem tokens_strip {inner : Text} {ts us : List Token}
    (h : tokens (rowText (p.fill (Marker.enclose inner))) = ts ++ .marker inner :: us)
    (hlead : joinTokens ts = p.lead) (marker : Text) :
    ∃ ts' us' a b, ts = ts' ++ charTokens a ∧ us = charTokens b ++ us' ∧
      tokens (rowText (p.strip marker)) = ts' ++ us' := by
  have hs := (Marker.sealed_left h).1
  have htrail : joinTokens us = p.trail := by
    have := congrArg joinTokens h
    rw [Marker.joinTokens_tokens, rowText_fill, Marker.joinTokens_append, Marker.joinTokens_cons,
      hlead, List.append_assoc] at this
    exact (List.append_cancel_left (List.append_cancel_left this)).symm
  have hus : tokens p.trail = us := by
    rw [← htrail]
    exact Marker.tokens_right (h.trans (List.append_cons ..))
  have hts : tokens p.lead = ts := by rw [← hlead, Marker.tokens_joinTokens hs]
  obtain ⟨x, x', y', y, hx, hy, hbx, hby, he, hcase⟩ := exists_of_withoutMarker p.before marker p.after
  rw [withoutMarker_eq] at he
  have hl : p.lead = p.above.flatMap (· ++ ['\t']) ++ x ++ x' := by simp [lead, hx]
  have hr : p.trail = y' ++ (y ++ p.below.flatMap ('\t' :: ·)) := by simp [trail, hy]
  have hseam := tokens_seam (a := p.above.flatMap (· ++ ['\t']) ++ x) (x := x')
    (b := y ++ p.below.flatMap ('\t' :: ·)) (by rwa [← hl, hts]) hbx (by
      rcases hcase with h | rfl | ⟨-, rfl | h⟩
      · exact .inl h
      · refine .inr (.inl ?_)
        rcases List.eq_nil_or_concat p.above with h | ⟨_, _, h⟩ <;> simp [h]
      · refine .inr (.inr ?_)
        cases p.below <;> simp
      · refine .inr (.inr ?_)
        cases y <;> simp_all)
  refine ⟨tokens (p.above.flatMap (· ++ ['\t']) ++ x), tokens (y ++ p.below.flatMap ('\t' :: ·)), x', y',
    ?_, ?_, ?_⟩
  · rw [← hts, hl]
    exact hseam.1
  · rw [← hus, hr]
    exact Marker.tokens_plain_append (fun c hc => (plain_of_allBlank hby c hc).1) _
  · rw [← hseam.2, strip, rowText_append, he]
    simp

/-! ## First and last occurrences -/

/-- The text does not occur in the cells in front of the place. -/
def IsFirst (p : Place) (x : Text) : Prop :=
  (∀ cell ∈ p.above, Text.contains x cell = false) ∧ ∀ a b, p.before ++ x = a ++ x ++ b → b = []

/-- The text does not occur in the cells behind the place. -/
def IsLast (p : Place) (x : Text) : Prop :=
  (∀ cell ∈ p.below, Text.contains x cell = false) ∧ ∀ a b, x ++ p.after = a ++ x ++ b → a = []

theorem IsFirst.withoutFirst {x : Text} (h : p.IsFirst x) :
    withoutFirst x (p.before ++ x ++ p.after) = leaveOut p.before x p.after := by
  have hfree : Text.FreeOf x p.before := by
    cases hc : Text.cutFirst? x (p.before ++ x) with
    | none =>
      exact absurd hc (by simpa using Text.cutFirst?_append_ne_none x p.before [])
    | some r =>
      have he := Text.eq_append_of_cutFirst? hc
      have hb : p.before = r.1 := by simpa [h.2 _ _ he] using he
      exact hb ▸ Text.freeOf_of_cutFirst? hc
  rw [Section.withoutFirst, hfree.cutFirst?]
  exact withoutMarker_eq ..

theorem IsLast.withoutLast {x : Text} (h : p.IsLast x) :
    withoutLast x (p.before ++ x ++ p.after) = leaveOut p.before x p.after := by
  obtain ⟨before, after, hc, hle⟩ := Text.exists_cutLast? x p.before p.after
  have he := Text.eq_append_of_cutLast? hc
  obtain ⟨a, ha⟩ : ∃ a, before = p.before ++ a := by
    rw [List.append_assoc, List.append_assoc] at he
    rcases List.append_eq_append_iff.1 he with ⟨as, rfl, -⟩ | ⟨bs, hbs, hrest⟩
    · exact ⟨as, rfl⟩
    · have := congrArg List.length hrest
      simp only [List.length_append] at this
      obtain rfl : bs = [] := List.length_eq_zero_iff.1 (by omega)
      exact ⟨[], by simpa using hbs.symm⟩
  rw [ha, List.append_assoc, List.append_assoc, List.append_assoc] at he
  obtain rfl := h.2 a after (by rw [List.append_assoc]; exact List.append_cancel_left he)
  obtain rfl : p.after = after := by simpa using he
  rw [Section.withoutLast, hc, ha, List.append_nil]
  exact withoutMarker_eq ..

theorem changeFirstCell_append {x : Text} {change : Text → Text} {as bs : List CellSnapshot}
    {c : CellSnapshot} (ha : ∀ a ∈ as, Text.contains x a.text = false)
    (hc : Text.contains x c.text) :
    changeFirstCell x change (as ++ c :: bs) = as ++ { c with text := change c.text } :: bs := by
  induction as with
  | nil => simp [changeFirstCell, hc]
  | cons a as ih =>
    rw [List.cons_append, changeFirstCell, if_neg (by simp [ha a List.mem_cons_self]),
      ih fun b hb => ha b (List.mem_cons_of_mem _ hb), List.cons_append]

theorem cellTexts_stripFirst {s : RowSnapshot} {x : Text} (hs : s.cells.map (·.text) = p.fill x)
    (h : p.IsFirst x) : (RowSnapshot.stripFirst x s).cells.map (·.text) = p.strip x := by
  obtain ⟨as, rest, hcells, ha, hrest⟩ := List.map_eq_append_iff.1 hs
  obtain ⟨c, bs, rfl, hc, hb⟩ := List.map_eq_cons_iff.1 hrest
  rw [RowSnapshot.stripFirst, hcells, changeFirstCell_append]
  · rw [List.map_append, List.map_cons, ha, hb, hc, h.withoutFirst, strip]
  · intro a hm
    exact h.1 _ (ha ▸ List.mem_map_of_mem hm)
  · exact Text.contains_iff.2 ⟨_, _, hc⟩

theorem cellTexts_stripLast {s : RowSnapshot} {x : Text} (hs : s.cells.map (·.text) = p.fill x)
    (h : p.IsLast x) : (RowSnapshot.stripLast x s).cells.map (·.text) = p.strip x := by
  obtain ⟨as, rest, hcells, ha, hrest⟩ := List.map_eq_append_iff.1 hs
  obtain ⟨c, bs, rfl, hc, hb⟩ := List.map_eq_cons_iff.1 hrest
  rw [RowSnapshot.stripLast, hcells, List.reverse_append, List.reverse_cons,
    List.append_assoc, List.singleton_append, changeFirstCell_append]
  · simp [ha, hb, hc, ← h.withoutLast, strip]
  · intro b hm
    exact h.1 _ (hb ▸ List.mem_map_of_mem (List.mem_reverse.1 hm))
  · exact Text.contains_iff.2 ⟨_, _, hc⟩

/-- **What stands behind a marker in the cells stays behind it** when the marker is taken out. -/
theorem exists_fill_strip {x inner : Text} (h : p.fill x = q.fill (Marker.enclose inner))
    (hle : p.lead.length + x.length ≤ q.lead.length) :
    ∃ q' : Place, q'.fill (Marker.enclose inner) = p.strip x ∧ q'.after = q.after ∧
      q'.below = q.below := by
  have hsame : p.above = q.above →
      p.before ++ x ++ p.after = q.before ++ Marker.enclose inner ++ q.after → p.below = q.below →
      ∃ q' : Place, q'.fill (Marker.enclose inner) = p.strip x ∧ q'.after = q.after ∧
        q'.below = q.below := by
    intro ha hcell hbelow
    have hlen : p.before.length + x.length ≤ q.before.length := by
      simp only [lead, ha, List.length_append] at hle
      omega
    obtain ⟨mid, hmid⟩ : ∃ mid, q.before = p.before ++ x ++ mid := by
      rw [List.append_assoc q.before] at hcell
      rcases List.append_eq_append_iff.1 hcell with ⟨as, hm, -⟩ | ⟨bs, hm, -⟩
      · exact ⟨as, hm⟩
      · have := congrArg List.length hm
        simp only [List.length_append] at this
        obtain rfl : bs = [] := List.length_eq_zero_iff.1 (by omega)
        exact ⟨[], by simpa using hm.symm⟩
    have hafter : p.after = mid ++ Marker.enclose inner ++ q.after := by
      simpa [hmid] using hcell
    obtain ⟨z, hz⟩ := exists_leaveOut_append p.before x mid inner q.after
    refine ⟨⟨p.above, z, q.after, q.below⟩, ?_, rfl, rfl⟩
    rw [fill, strip, hafter, hz, hbelow]
  rcases List.append_eq_append_iff.1 h with ⟨as, ha, hrest⟩ | ⟨bs, hb, hrest⟩
  · cases as with
    | nil =>
      obtain ⟨hcell, hbelow⟩ := List.cons.inj hrest
      exact hsame (by simpa using ha.symm) hcell hbelow
    | cons y as =>
      obtain ⟨rfl, hbelow⟩ := List.cons.inj hrest
      refine ⟨⟨p.above ++ leaveOut p.before x p.after :: as, q.before, q.after, q.below⟩, ?_,
        rfl, rfl⟩
      rw [fill, strip, hbelow]
      simp
  · cases bs with
    | nil =>
      obtain ⟨hcell, hbelow⟩ := List.cons.inj hrest
      exact hsame (by simpa using hb) hcell.symm hbelow.symm
    | cons y bs =>
      -- The second one would stand in an earlier cell.
      obtain ⟨rfl, -⟩ := List.cons.inj hrest
      simp only [lead, hb, List.length_append, List.flatMap_append, List.flatMap_cons,
        List.length_cons, List.length_nil] at hle
      omega

/-! ## Markers at places -/

/-- The marker of the row's text stands at the place. -/
def Holds (p : Place) (m : Marker) (cells : List Text) : Prop :=
  cells = p.fill m.text ∧ p.lead.length = m.start

variable {x : Text}

theorem isFirst_of_le (h : cells = p.fill x)
    (hle : ∀ q : Place, cells = q.fill x → p.lead.length ≤ q.lead.length) : p.IsFirst x := by
  constructor
  · intro cell hcell
    obtain ⟨us, vs, hsplit⟩ := List.append_of_mem hcell
    refine Text.contains_eq_false_iff.2 fun a b hab => ?_
    have := hle ⟨us, a, b, vs ++ (p.before ++ x ++ p.after) :: p.below⟩
      (by rw [h, fill, fill, hsplit, hab, List.append_assoc, List.cons_append])
    simp only [lead, hsplit, hab, List.length_append, List.flatMap_append, List.flatMap_cons,
      List.length_cons, List.length_nil] at this
    omega
  · intro a b hab
    have := hle ⟨p.above, a, b ++ p.after, p.below⟩ (by rw [h, fill, fill, hab, List.append_assoc _ b])
    have hlen := congrArg List.length hab
    simp only [lead, List.length_append] at this hlen
    exact List.length_eq_zero_iff.1 (by omega)

theorem isLast_of_le (h : cells = p.fill x)
    (hle : ∀ q : Place, cells = q.fill x → q.lead.length ≤ p.lead.length) : p.IsLast x := by
  constructor
  · intro cell hcell
    obtain ⟨us, vs, hsplit⟩ := List.append_of_mem hcell
    refine Text.contains_eq_false_iff.2 fun a b hab => ?_
    have := hle ⟨p.above ++ (p.before ++ x ++ p.after) :: us, a, b, vs⟩
      (by simp [h, fill, hsplit, hab])
    simp only [lead, List.length_append, List.flatMap_append, List.flatMap_cons,
      List.length_cons, List.length_nil] at this
    omega
  · intro a b hab
    have := hle ⟨p.above, p.before ++ a, b, p.below⟩ (by
      rw [h, fill, fill, List.append_assoc p.before, hab]
      simp only [List.append_assoc])
    simp only [lead, List.length_append] at this
    exact List.length_eq_zero_iff.1 (by omega)

/-- Where the text of a marker stands in a row whose markers are simple, a marker stands. -/
theorem exists_marker (hs : ∀ i, .marker i ∈ tokens (rowText cells) → Marker.Simple i)
    (hm : m ∈ Marker.scan (rowText cells)) (hq : cells = q.fill m.text) :
    ∃ m' ∈ Marker.scan (rowText cells), m'.toSense = m.toSense ∧ m'.text = m.text ∧
      m'.start = q.lead.length := by
  obtain ⟨ts, inner, us, hb, hmark⟩ := between_of_mem_scan hm
  have hf := (Marker.sealed_left hb.1).2
  have hx : m.text = Marker.enclose inner := by rw [hmark]; rfl
  rw [hx] at hq
  obtain ⟨ts', us', ht, hl, -⟩ := Marker.tokens_of_occurrence hs hf (by rw [hq, rowText_fill])
  refine ⟨ofInner inner q.lead.length, ?_, by rw [hmark]; rfl, by rw [hmark]; rfl, rfl⟩
  rw [Marker.scan_eq_locateTokens, ht, Marker.locateTokens_append, hl, Nat.zero_add]
  exact List.mem_append_right _ List.mem_cons_self

namespace Holds

variable (hs : ∀ i, .marker i ∈ tokens (rowText cells) → Marker.Simple i)
  (hm : m ∈ Marker.scan (rowText cells))
include hs hm

/-- The first marker of its text is the first occurrence in the cells. -/
theorem isFirst (h : p.Holds m cells)
    (hfirst : ∀ m' ∈ Marker.scan (rowText cells), m'.toSense = m.toSense → m.start ≤ m'.start) :
    p.IsFirst m.text := by
  refine isFirst_of_le h.1 fun q hq => ?_
  obtain ⟨m', hm', he, -, hstart⟩ := exists_marker hs hm hq
  rw [h.2, ← hstart]
  exact hfirst m' hm' he

/-- The last marker of its text is the last occurrence in the cells. -/
theorem isLast (h : p.Holds m cells)
    (hlast : ∀ m' ∈ Marker.scan (rowText cells), m'.text = m.text → m'.start ≤ m.start) :
    p.IsLast m.text := by
  refine isLast_of_le h.1 fun q hq => ?_
  obtain ⟨m', hm', -, he, hstart⟩ := exists_marker hs hm hq
  rw [h.2, ← hstart]
  exact hlast m' hm' he

end Holds
end Place
end MailMerge.Section
