import MailMerge.Marker.Scan

/-!
# The end of a section

A section ends at the marker that brings the count of its openers and closers to zero: openers of
the same name and sigil in between have to be closed first. The search can be cut anywhere, with
the depth carried on, so it can go from row to row and from paragraph to paragraph.

**`findCloser_append`**: searching two lists of markers in turn is searching their concatenation.
-/

namespace MailMerge.Section

/-- The marker that closes a section of which `depth` openers are unclosed, or the depth after all
markers. -/
def findCloser (opener : Marker) : (depth : Int) → List Marker → Option Marker × Int
  | depth, [] => (none, depth)
  | depth, m :: ms =>
    if m.opensLike opener then findCloser opener (depth + 1) ms
    else if m.closes opener then
      if depth - 1 = 0 then (some m, 0) else findCloser opener (depth - 1) ms
    else findCloser opener depth ms

theorem findCloser_append (opener : Marker) (depth : Int) (xs ys : List Marker) :
    findCloser opener depth (xs ++ ys) =
      match findCloser opener depth xs with
      | (some closer, d) => (some closer, d)
      | (none, d) => findCloser opener d ys := by
  induction xs generalizing depth with
  | nil => rfl
  | cons m ms ih =>
    simp only [List.cons_append, findCloser]
    split
    · exact ih _
    · split
      · split
        · rfl
        · exact ih _
      · exact ih _

/-- The first of several lists in which the closing marker stands, by its index, and that marker.
The depth is carried from list to list. -/
def findCloserIn (opener : Marker) : (depth : Int) → List (List Marker) → Option (Nat × Marker)
  | _, [] => none
  | depth, ms :: rest =>
    match findCloser opener depth ms with
    | (some closer, _) => some (0, closer)
    | (none, depth) => (findCloserIn opener depth rest).map fun (i, closer) => (i + 1, closer)

/-- The section markers of a text. -/
def markersOf (t : Text) : List Marker :=
  Marker.scanFor Marker.Kind.isSection t

/-- The first marker of a text that starts a section. -/
def firstOpener? (t : Text) : Option Marker :=
  (Marker.scan t).find? fun m => m.kind == .sectionStart

/-- Where a section that an opener in the first text starts is closed: in which of the texts, and by
which marker. -/
def closingText? (opener : Marker) : List Text → Option (Nat × Marker)
  | [] => none
  | t :: ts =>
    findCloserIn opener 1
      (((markersOf t).filter fun m => opener.start < m.start) :: ts.map markersOf)

end MailMerge.Section

namespace MailMerge.Marker

/-- The section's name as messages show it, with the sign of a named source. -/
def label (m : Marker) : Text :=
  if m.fromSource then '@' :: m.argument else m.argument

end MailMerge.Marker
