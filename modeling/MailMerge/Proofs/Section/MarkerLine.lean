import MailMerge.Marker.Scan
import MailMerge.Proofs.Text.Calm
import MailMerge.Section.Template

/-!
# The line of a marker

A marker of one line that stands somewhere in a text is a part of one of the text's lines. Where it is
taken out, the lines before and after this one stay as they are. Its own line loses the marker, or goes
with it: that takes a line that holds nothing but blanks beside the marker, and another line.

**`lines_withoutMarker`**: the lines of a text from which a marker is taken out at any of its places.

**`losesMarker_withoutFirst`**, **`losesMarker_withoutLast`**: so it is at its first and at its last place.
-/

namespace MailMerge

namespace Text

/-! ## Lines of texts that are put together -/

variable {s t : Text} {earlier later : List Text} {head tail : Text}

/-- The last line of a text stands behind the last newline. -/
theorem cutLast?_of_lines (h : lines s = earlier ++ [head]) :
    cutLast? ['\n'] s = none ∧ earlier = [] ∧ head = s ∨
      ∃ before, cutLast? ['\n'] s = some (before, head) ∧ earlier = lines before := by
  cases hl : cutLast? ['\n'] s with
  | none =>
    rw [lines_of_notMem (cutLast?_eq_none_iff.1 hl)] at h
    rw [← List.nil_append [s]] at h
    obtain ⟨rfl, rfl⟩ := List.append_singleton_inj.1 h
    exact .inl ⟨rfl, rfl, rfl⟩
  | some p =>
    rw [lines_of_cutLast? hl] at h
    obtain ⟨rfl, rfl⟩ := List.append_singleton_inj.1 h
    exact .inr ⟨p.1, rfl, rfl⟩

/-- The first line of a text stands before the first newline. -/
theorem cutFirst?_of_lines (h : lines t = tail :: later) :
    cutFirst? ['\n'] t = none ∧ tail = t ∧ later = [] ∨
      ∃ after, cutFirst? ['\n'] t = some (tail, after) ∧ later = lines after := by
  cases hf : cutFirst? ['\n'] t with
  | none =>
    rw [lines_of_notMem (cutFirst?_singleton_eq_none_iff.1 hf)] at h
    obtain ⟨rfl, rfl⟩ := List.cons.inj h
    exact .inl ⟨rfl, rfl, rfl⟩
  | some p =>
    rw [lines_of_cutFirst? hf] at h
    obtain ⟨rfl, rfl⟩ := List.cons.inj h
    exact .inr ⟨p.2, rfl, rfl⟩

/-- A text of one line goes on in the first line of the text behind it. -/
theorem lines_append_of_notMem (hs : '\n' ∉ s) (ht : lines t = tail :: later) :
    lines (s ++ t) = (s ++ tail) :: later := by
  induction s with
  | nil => exact ht
  | cons c s ih =>
    rw [List.mem_cons, not_or] at hs
    have hrest := ih hs.2
    rw [lines] at hrest ⊢
    rw [List.cons_append, splitOn, if_neg (Ne.symm hs.1), hrest]
    rfl

/-- Two texts that are put together meet in one line. -/
theorem lines_append (hs : lines s = earlier ++ [head]) (ht : lines t = tail :: later) :
    lines (s ++ t) = earlier ++ (head ++ tail) :: later := by
  rcases cutLast?_of_lines hs with ⟨hl, rfl, rfl⟩ | ⟨before, hl, rfl⟩
  · exact lines_append_of_notMem (cutLast?_eq_none_iff.1 hl) ht
  · rw [eq_append_of_cutLast? hl, List.append_assoc, List.append_assoc, List.singleton_append,
      lines_append_newline, lines_append_of_notMem (notMem_of_cutLast? hl) ht]

theorem two_le_length_lines_iff : 2 ≤ (lines t).length ↔ '\n' ∈ t := by
  constructor
  · intro h
    by_contra hn
    rw [lines_of_notMem hn, List.length_singleton] at h
    omega
  · intro h
    obtain ⟨a, b, rfl⟩ := List.append_of_mem h
    rw [lines_append_newline, List.length_append]
    have ha := List.length_pos_iff.2 (lines_ne_nil a)
    have hb := List.length_pos_iff.2 (lines_ne_nil b)
    omega

end Text

namespace Section

open Text (lines)

variable {before marker after : Text} {earlier later : List Text} {head tail : Text}

/-! ## Taking out a marker -/

/-- The parts of a text around the line of a marker are put together without the line. -/
theorem lines_withoutMarker_of_alone (hb : lines before = earlier ++ [head])
    (ha : lines after = tail :: later) (hblank : Text.allBlank head ∧ Text.allBlank tail)
    (hn : '\n' ∈ before ++ marker ++ after) (hmarker : '\n' ∉ marker) :
    lines (withoutMarker before marker after) = earlier ++ later := by
  unfold withoutMarker
  rcases Text.cutLast?_of_lines hb with ⟨hl, rfl, rfl⟩ | ⟨b, hl, rfl⟩ <;>
    rcases Text.cutFirst?_of_lines ha with ⟨hf, rfl, rfl⟩ | ⟨a, hf, rfl⟩
  · -- The text would have one line.
    have hhead := Text.cutLast?_eq_none_iff.1 hl
    have htail := Text.cutFirst?_singleton_eq_none_iff.1 hf
    simp [hhead, htail, hmarker] at hn
  · rw [hl, hf]
    exact congrArg lines (if_pos ⟨hblank.1, hblank.2, hn⟩)
  · rw [hl, hf, List.append_nil]
    exact congrArg lines (if_pos ⟨hblank.1, hblank.2, hn⟩)
  · rw [hl, hf, ← Text.lines_append_newline]
    exact congrArg lines (if_pos ⟨hblank.1, hblank.2, hn⟩)

/-- A marker whose line holds something else, or is the only one, is left out by itself. -/
theorem withoutMarker_of_not_alone (hb : lines before = earlier ++ [head]) (ha : lines after = tail :: later)
    (h : ¬ ('\n' ∈ before ++ marker ++ after ∧ Text.allBlank head ∧ Text.allBlank tail)) :
    withoutMarker before marker after = before ++ after := by
  unfold withoutMarker
  rcases Text.cutLast?_of_lines hb with ⟨hl, -, rfl⟩ | ⟨b, hl, -⟩ <;>
    rcases Text.cutFirst?_of_lines ha with ⟨hf, rfl, -⟩ | ⟨a, hf, -⟩ <;>
    · rw [hl, hf]
      exact if_neg fun hall => h ⟨hall.2.2, hall.1, hall.2.1⟩

/-- A marker between two parts of a text is taken out of the line in which they meet. -/
theorem exists_lines_withoutMarker (before after : Text) (hn : '\n' ∉ marker) :
    ∃ earlier head tail later,
      lines before = earlier ++ [head] ∧
      lines after = tail :: later ∧
      lines (before ++ marker ++ after) = earlier ++ (head ++ marker ++ tail) :: later ∧
      lines (withoutMarker before marker after) =
        if 2 ≤ (lines (before ++ marker ++ after)).length ∧ Text.allBlank (head ++ tail) then
          earlier ++ later
        else earlier ++ (head ++ tail) :: later := by
  obtain ⟨earlier, head, hb⟩ := (List.eq_nil_or_concat (lines before)).resolve_left (Text.lines_ne_nil before)
  rw [List.concat_eq_append] at hb
  obtain ⟨tail, later, ha⟩ := List.exists_cons_of_ne_nil (Text.lines_ne_nil after)
  have hmarker : lines (before ++ marker) = earlier ++ [head ++ marker] :=
    Text.lines_append hb (Text.lines_of_notMem hn)
  have hblank : Text.allBlank (head ++ tail) ↔ Text.allBlank head ∧ Text.allBlank tail := by
    rw [Text.allBlank, List.all_append, Bool.and_eq_true]
    rfl
  refine ⟨earlier, head, tail, later, hb, ha, Text.lines_append hmarker ha, ?_⟩
  by_cases halone : '\n' ∈ before ++ marker ++ after ∧ Text.allBlank head ∧ Text.allBlank tail
  · rw [if_pos ⟨Text.two_le_length_lines_iff.2 halone.1, hblank.2 halone.2⟩]
    exact lines_withoutMarker_of_alone hb ha halone.2 halone.1 hn
  · rw [if_neg fun hline => halone ⟨Text.two_le_length_lines_iff.1 hline.1, hblank.1 hline.2⟩,
      withoutMarker_of_not_alone hb ha halone]
    exact Text.lines_append hb ha

/-- One of the lines loses a marker in it, or is lost with it. -/
def LosesMarker (marker : Text) (ls ls' : List Text) : Prop :=
  ∃ earlier head tail later, ls = earlier ++ (head ++ marker ++ tail) :: later ∧
    ls' = if 2 ≤ ls.length ∧ Text.allBlank (head ++ tail) then earlier ++ later
      else earlier ++ (head ++ tail) :: later

theorem losesMarker_of_parts {t : Text} (ht : t = before ++ marker ++ after) (hn : '\n' ∉ marker) :
    LosesMarker marker (lines t) (lines (withoutMarker before marker after)) := by
  subst ht
  obtain ⟨earlier, head, tail, later, -, -, hlines, hwithout⟩ := exists_lines_withoutMarker before after hn
  exact ⟨earlier, head, tail, later, hlines, hwithout⟩

/-- The first occurrence of a marker is taken out of its line. -/
theorem losesMarker_withoutFirst {t : Text} (h : Text.contains marker t) (hn : '\n' ∉ marker) :
    LosesMarker marker (lines t) (lines (withoutFirst marker t)) := by
  obtain ⟨⟨before, after⟩, hcut⟩ := Option.isSome_iff_exists.1 h
  rw [withoutFirst, hcut]
  exact losesMarker_of_parts (Text.eq_append_of_cutFirst? hcut) hn

/-- The last occurrence of a marker is taken out of its line. -/
theorem losesMarker_withoutLast {t : Text} (h : Text.contains marker t) (hn : '\n' ∉ marker) :
    LosesMarker marker (lines t) (lines (withoutLast marker t)) := by
  obtain ⟨a, b, rfl⟩ := Text.contains_iff.1 h
  obtain ⟨before, after, hcut, -⟩ := Text.exists_cutLast? marker a b
  rw [withoutLast, hcut]
  exact losesMarker_of_parts (Text.eq_append_of_cutLast? hcut) hn

/-- **A marker that is taken out changes its own line only**, wherever it stands. -/
theorem lines_withoutMarker {t : Text} {i : Nat} (h : marker <+: t.drop i) (hn : '\n' ∉ marker) :
    ∃ earlier head tail later,
      lines (t.take i) = earlier ++ [head] ∧
      lines (t.drop (i + marker.length)) = tail :: later ∧
      lines t = earlier ++ (head ++ marker ++ tail) :: later ∧
      lines (withoutMarker (t.take i) marker (t.drop (i + marker.length))) =
        if 2 ≤ (lines t).length ∧ Text.allBlank (head ++ tail) then earlier ++ later
        else earlier ++ (head ++ tail) :: later := by
  obtain ⟨rest, hrest⟩ := h
  have hafter : t.drop (i + marker.length) = rest := by
    rw [← List.drop_drop, ← hrest, List.drop_left]
  have ht : t.take i ++ marker ++ rest = t := by
    rw [List.append_assoc, hrest, List.take_append_drop]
  have hparts := exists_lines_withoutMarker (t.take i) rest hn
  rwa [ht, ← hafter] at hparts

/-- A section over three lines: its markers have a line each. -/
def itemLines : Text :=
  Text.unlines [Marker.enclose "#Items", Marker.enclose "Name", Marker.enclose "/Items"]

/-- The closing marker goes with the last line. -/
theorem lines_withoutMarker_itemLines :
    Marker.enclose "/Items" <+: itemLines.drop 20 ∧ '\n' ∉ Marker.enclose "/Items" ∧
      lines (withoutMarker (itemLines.take 20) (Marker.enclose "/Items") (itemLines.drop 30)) =
        [Marker.enclose "#Items", Marker.enclose "Name"] := by
  have hplace : Marker.enclose "/Items" <+: itemLines.drop 20 := by decide
  have hn : '\n' ∉ Marker.enclose "/Items" := by decide
  refine ⟨hplace, hn, ?_⟩
  obtain ⟨earlier, head, tail, later, hb, ha, -, hlines⟩ := lines_withoutMarker hplace hn
  have hbefore : lines (itemLines.take 20) = [Marker.enclose "#Items", Marker.enclose "Name"] ++ [[]] := by
    decide
  have hafter : lines (itemLines.drop 30) = [[]] := by decide
  obtain ⟨rfl, rfl⟩ := List.append_singleton_inj.1 (hbefore.symm.trans hb)
  obtain ⟨rfl, rfl⟩ := List.cons.inj (hafter.symm.trans ha)
  exact hlines.trans (by decide)

end Section
end MailMerge
