import MailMerge.Marker.Classify

/-!
# Finding markers

A text is cut at its markers, from left to right: a marker begins at the first opening braces and
ends at the first closing braces after them. `Marker.segments` is the cut, `Marker.scan` the list
of markers with their offsets.

**`segments_join`**: the gaps, the markers and the rest make up the text again.
-/

namespace MailMerge.Marker

/-- The opening braces. -/
def opening : Text := ['{', '{']

/-- The closing braces. -/
def closing : Text := ['}', '}']

/-- A text between braces. -/
def enclose (inner : Text) : Text :=
  opening ++ inner ++ closing

/-- The text before the first marker, the text between its braces, and the text after it. -/
def next? (t : Text) : Option (Text × Text × Text) := do
  let (gap, rest) ← Text.cutFirst? opening t
  let (inner, after) ← Text.cutFirst? closing rest
  return (gap, inner, after)

theorem eq_append_of_next? {t gap inner after : Text} (h : next? t = some (gap, inner, after)) :
    t = gap ++ enclose inner ++ after := by
  unfold next? at h
  cases h₁ : Text.cutFirst? opening t with
  | none => simp [h₁] at h
  | some p =>
    obtain ⟨g, r⟩ := p
    cases h₂ : Text.cutFirst? closing r with
    | none => simp [h₁, h₂] at h
    | some q =>
      obtain ⟨i, a⟩ := q
      simp [h₁, h₂] at h
      obtain ⟨rfl, rfl, rfl⟩ := h
      rw [Text.eq_append_of_cutFirst? h₁, Text.eq_append_of_cutFirst? h₂]
      simp [enclose]

theorem length_of_next? {t gap inner after : Text} (h : next? t = some (gap, inner, after)) :
    gap.length + inner.length + after.length + 4 = t.length := by
  rw [eq_append_of_next? h]
  simp only [enclose, opening, closing, List.length_append, List.length_cons, List.length_nil]
  omega

/-- Each marker with the text before it, and the text after the last one. -/
def segments (t : Text) : List (Text × Text) × Text :=
  match _h : next? t with
  | none => ([], t)
  | some (gap, inner, after) =>
    let (rest, tail) := segments after
    ((gap, inner) :: rest, tail)
  termination_by t.length
  decreasing_by
    have := length_of_next? _h
    omega

/-- The text that segments were cut from. -/
def joinSegments (segments : List (Text × Text)) (tail : Text) : Text :=
  segments.foldr (fun (gap, inner) t => gap ++ enclose inner ++ t) tail

theorem segments_join (t : Text) : joinSegments (segments t).1 (segments t).2 = t := by
  fun_induction segments t with
  | case1 t h => rfl
  | case2 t gap inner after h rest tail hr ih =>
    simp only [joinSegments, List.foldr_cons] at ih ⊢
    rw [hr] at ih
    rw [ih, ← eq_append_of_next? h]

/-- The marker around an inner text, whose opening braces stand at an offset. -/
def ofInner (inner : Text) (start : Nat) : Marker :=
  { classify inner with
    text := enclose inner
    inner := Text.trim inner
    start
    stop := start + (enclose inner).length }

/-- The markers of segments that start at an offset. -/
def locate (offset : Nat) : List (Text × Text) → List Marker
  | [] => []
  | (gap, inner) :: rest =>
    let m := ofInner inner (offset + gap.length)
    m :: locate m.stop rest

/-- The markers of a text, in order. -/
def scan (t : Text) : List Marker :=
  locate 0 (segments t).1

/-- The markers of the given kinds, in order. -/
def scanFor (kinds : Kind → Bool) (t : Text) : List Marker :=
  (scan t).filter fun m => kinds m.kind

/-- The text has a marker: braces that open are looked for before anything else. -/
def hasMarker (t : Text) : Bool :=
  Text.contains opening t && (next? t).isSome

/-- The text has a marker of one of the kinds. -/
def hasAny (kinds : Kind → Bool) (t : Text) : Bool :=
  Text.contains opening t && !(scanFor kinds t).isEmpty

/-- The marker of a text that is, but for blanks around it, exactly one marker. Only a text between
braces is searched. -/
def lone? (t : Text) : Option Marker :=
  let t := Text.trim t
  if Text.startsWith opening t && Text.endsWith closing t then
    match scan t with
    | [m] => if m.start = 0 ∧ m.stop = t.length then some m else none
    | _ => none
  else
    none

end MailMerge.Marker
