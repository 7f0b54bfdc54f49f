import MailMerge.Merge.Warning
import MailMerge.Section.Closer
import MailMerge.Text.Class

/-!
# Sections inside a text

A span is a complete section of a text, from its opening to its closing marker. Where both markers
fill lines of their own, the lines belong to the markers: the span's body is whole lines, and the
span takes the newline after the closing marker with it. `Span.find` gives the outermost spans of a
text from left to right.

While the text around the spans is rendered, each span is set aside: a placeholder with its number,
between two characters of private use, stands for it.

**`length_body_of_mem_find`**: the body of a span is shorter than the text.
-/

namespace MailMerge.Section

/-- A complete section inside a text. -/
structure Span where
  opener : Marker
  start : Nat
  stop : Nat
  body : Text
  /-- The span goes to the end of the text and its markers fill lines, so the newline that its last
  rendered line ends with is one too many. -/
  trimNewline : Bool := false
deriving DecidableEq, Repr

namespace Span

/-- The opening marker begins a line and ends it. -/
def opensLine (t : Text) (opener : Marker) : Bool :=
  (opener.start = 0 || t[opener.start - 1]? == some '\n') && t[opener.stop]? == some '\n'

/-- The closing marker begins a line and ends it. -/
def closesLine (t : Text) (closer : Marker) : Bool :=
  0 < closer.start && t[closer.start - 1]? == some '\n'
    && (closer.stop = t.length || t[closer.stop]? == some '\n')

/-- The span between two markers of a text. -/
def between (t : Text) (opener closer : Marker) : Span :=
  let body := Text.slice t opener.stop closer.start
  if opensLine t opener && closesLine t closer then
    let stop := if closer.stop < t.length then closer.stop + 1 else closer.stop
    { opener, start := opener.start, stop, body := body.drop 1, trimNewline := t.length ≤ stop }
  else
    { opener, start := opener.start, stop := closer.stop, body }

/-- The spans that start among the given markers, from an offset on, and warnings about sections
that are never closed. -/
def findFrom (t : Text) : (offset : Nat) → List Marker → List Span × List Warning
  | _, [] => ([], [])
  | offset, m :: ms =>
    if m.kind = .sectionStart ∧ offset ≤ m.start then
      match findCloser m 1 ms with
      | (some closer, _) =>
        let span := between t m closer
        let (spans, warnings) := findFrom t span.stop ms
        (span :: spans, warnings)
      | (none, _) =>
        let (spans, warnings) := findFrom t m.stop ms
        (spans, .unclosedSection m.argument :: warnings)
    else
      findFrom t offset ms

/-- The outermost spans of a text, from left to right, and warnings about sections that are never
closed. -/
def find (t : Text) : List Span × List Warning :=
  findFrom t 0 (markersOf t)

/-! ## Bodies are shorter -/

theorem length_body_between {t : Text} {opener closer : Marker} (h : 0 < opener.stop)
    (hs : opener.stop ≤ t.length) : (between t opener closer).body.length < t.length := by
  have hb : (Text.slice t opener.stop closer.start).length < t.length := by
    simp only [Text.slice, List.length_drop, List.length_take]
    omega
  unfold between
  dsimp only
  split
  · simp only [List.length_drop]
    omega
  · exact hb

theorem mem_body_of_mem_findFrom {t : Text} {offset : Nat} {ms : List Marker}
    (hm : ∀ m ∈ ms, 0 < m.stop ∧ m.stop ≤ t.length) {s : Span}
    (h : s ∈ (findFrom t offset ms).1) : s.body.length < t.length := by
  induction ms generalizing offset with
  | nil => simp [findFrom] at h
  | cons m ms ih =>
    have hms : ∀ m ∈ ms, 0 < m.stop ∧ m.stop ≤ t.length :=
      fun x hx => hm x (List.mem_cons_of_mem _ hx)
    unfold findFrom at h
    split at h
    · split at h
      · rcases List.mem_cons.1 h with rfl | h
        · have := hm m (List.mem_cons_self ..)
          exact length_body_between this.1 this.2
        · exact ih hms h
      · exact ih hms h
    · exact ih hms h

end Span
end Section

/-! ## Offsets of markers -/

namespace Marker

theorem stop_of_mem_locate {offset : Nat} {segments : List (Text × Text)} {tail : Text} {m : Marker}
    (h : m ∈ locate offset segments) :
    0 < m.stop ∧ m.stop ≤ offset + (joinSegments segments tail).length := by
  induction segments generalizing offset with
  | nil => simp [locate] at h
  | cons s rest ih =>
    obtain ⟨gap, inner⟩ := s
    have hl : (joinSegments ((gap, inner) :: rest) tail).length
        = gap.length + (enclose inner).length + (joinSegments rest tail).length := by
      simp only [joinSegments, List.foldr_cons, List.length_append]
    have he : 0 < (enclose inner).length := by
      simp only [enclose, opening, closing, List.length_append, List.length_cons]
      omega
    simp only [locate] at h
    rcases List.mem_cons.1 h with rfl | h
    · simp only [ofInner]
      omega
    · have := ih h
      simp only [ofInner] at this
      omega

theorem stop_of_mem_scan {t : Text} {m : Marker} (h : m ∈ scan t) :
    0 < m.stop ∧ m.stop ≤ t.length := by
  have := @stop_of_mem_locate 0 (segments t).1 (segments t).2 m h
  rwa [segments_join, Nat.zero_add] at this

end Marker

namespace Section.Span

theorem length_body_of_mem_find {t : Text} {s : Span} (h : s ∈ (find t).1) :
    s.body.length < t.length :=
  mem_body_of_mem_findFrom
    (fun _ hm => Marker.stop_of_mem_scan (List.mem_filter.1 hm).1) h

/-! ## Placeholders -/

/-- Stands before the number of a span that is set aside. -/
def placeholderStart : Char := '\uE000'

/-- Stands after the number of a span that is set aside. -/
def placeholderEnd : Char := '\uE001'

/-- What stands for a span while the text around it is rendered. -/
def placeholder (index : Nat) : Text :=
  placeholderStart :: Text.ofNat index ++ [placeholderEnd]

/-- The text from an offset on, with placeholders in place of the spans. -/
def setAside (t : Text) : (index offset : Nat) → List Span → Text
  | _, offset, [] => t.drop offset
  | index, offset, s :: spans =>
    Text.slice t offset s.start ++ placeholder index ++ setAside t (index + 1) s.stop spans

/-- A piece of a text with placeholders. -/
inductive Piece where
  | char (c : Char)
  | placeholder (digits : Text)
deriving DecidableEq, Repr

/-- The digits of a placeholder at the start of a text, and what follows it. -/
def takePlaceholder? : Text → Option (Text × Text)
  | [] => none
  | c :: rest =>
    let digits := rest.takeWhile Text.isDecimalDigit
    match rest.dropWhile Text.isDecimalDigit with
    | [] => none
    | d :: after =>
      if c = placeholderStart ∧ digits ≠ [] ∧ d = placeholderEnd then some (digits, after) else none

theorem length_of_takePlaceholder? {t digits after : Text}
    (h : takePlaceholder? t = some (digits, after)) : after.length < t.length := by
  cases t with
  | nil => simp [takePlaceholder?] at h
  | cons c rest =>
    unfold takePlaceholder? at h
    dsimp only at h
    split at h
    · simp at h
    · next d after' hd =>
      split at h
      · simp only [Option.some.injEq, Prod.mk.injEq] at h
        have := (@List.dropWhile_suffix _ rest Text.isDecimalDigit).length_le
        rw [hd, ← h.2] at *
        simp only [List.length_cons] at this ⊢
        omega
      · simp at h

/-- The pieces of a text. -/
def pieces : Text → List Piece
  | [] => []
  | c :: rest =>
    match _h : takePlaceholder? (c :: rest) with
    | some (digits, after) => .placeholder digits :: pieces after
    | none => .char c :: pieces rest
  termination_by t => t.length
  decreasing_by
    · exact length_of_takePlaceholder? _h
    · simp

end Section.Span
end MailMerge
