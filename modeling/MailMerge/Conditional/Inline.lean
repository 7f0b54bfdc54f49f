import MailMerge.Conditional.Branch
import MailMerge.Marker.Scan
import MailMerge.Merge.Log
import MailMerge.Settings
import MailMerge.Tree.Basic

/-!
# Conditionals inside a text

A conditional runs from an `IF` marker to its `/IF` and is divided into branches by `ELSEIF` and
`ELSE`. A pass over a text replaces every innermost conditional, one that holds no other, by the
branch that is selected, from right to left, so that the offsets to the left stay valid. Passes
follow until there is no conditional left; a limit bounds their number. Markers without a partner
stay in the text.
-/

namespace MailMerge.Conditional

/-- A branch of a conditional; without a condition it is the `ELSE` branch. -/
structure Branch where
  condition : Option Text
  content : Text
deriving DecidableEq, Repr

/-- A conditional at its place in a text. -/
structure Block where
  start : Nat
  stop : Nat
  branches : List Branch
deriving DecidableEq, Repr

/-! ## Innermost conditionals -/

/-- An `IF` that is still open: whether another one opened after it, and the markers that divide
it, the last one first. -/
structure Frame where
  opener : Marker
  nested : Bool := false
  dividers : List Marker := []

/-- The condition at the head of a branch. -/
def headCondition (m : Marker) : Option Text :=
  if m.kind = .otherwise then none else some m.argument

/-- The branches that begin at the given heads; the last one ends at an offset. -/
def branches (t : Text) (stop : Nat) : (heads : List Marker) → List Branch
  | [] => []
  | [head] => [⟨headCondition head, Text.slice t head.stop stop⟩]
  | head :: next :: rest =>
    ⟨headCondition head, Text.slice t head.stop next.start⟩ :: branches t stop (next :: rest)

/-- The conditional of a frame that a marker closes. -/
def Frame.close (t : Text) (f : Frame) (closer : Marker) : Block where
  start := f.opener.start
  stop := closer.stop
  branches := branches t closer.start (f.opener :: f.dividers.reverse)

/-- The innermost conditionals that end at the given markers, where the frames are open, the inner
ones first. -/
def innermostFrom (t : Text) : (frames : List Frame) → (markers : List Marker) → List Block
  | _, [] => []
  | frames, m :: ms =>
    match m.kind, frames with
    | .ifStart, [] => innermostFrom t [{ opener := m }] ms
    | .ifStart, f :: fs => innermostFrom t ({ opener := m } :: { f with nested := true } :: fs) ms
    | .elseIf, f :: fs => innermostFrom t ({ f with dividers := m :: f.dividers } :: fs) ms
    | .otherwise, f :: fs => innermostFrom t ({ f with dividers := m :: f.dividers } :: fs) ms
    | .ifEnd, f :: fs =>
      if f.nested then innermostFrom t fs ms else f.close t m :: innermostFrom t fs ms
    | _, frames => innermostFrom t frames ms

/-- The conditionals of a text that hold no other, from left to right. -/
def innermost (t : Text) : List Block :=
  innermostFrom t [] (Marker.scanFor Marker.Kind.isConditional t)

/-! ## Selecting branches -/

/-- The content of the branch that is selected, or nothing. -/
def select (fields : Condition.Fields) (bs : List Branch) : Except Fault (Text × List Warning) := do
  let (selected, warnings) ← selectFirst fields (·.condition) bs
  return (selected.elim [] (·.content), warnings)

/-- The text with a conditional replaced. -/
def splice (t : Text) (b : Block) (content : Text) : Text :=
  t.take b.start ++ content ++ t.drop b.stop

/-- One pass: the given conditionals are replaced, the last one first. -/
def pass (fields : Condition.Fields) (t : Text) : List Block → Except Fault (Text × List Warning)
  | [] => .ok (t, [])
  | b :: rest => do
    let (t, warnings) ← pass fields t rest
    let (content, more) ← select fields b.branches
    return (splice t b content, warnings ++ more)

/-! ## Passes -/

/-- What passes make of a text. -/
structure Resolution where
  text : Text
  warnings : List Warning := []
  /-- No conditional is left. -/
  finished : Bool := true

/-- A text after at most so many passes. -/
def passes (fields : Condition.Fields) : (most : Nat) → Text → Except Fault Resolution
  | 0, t => .ok { text := t, finished := (innermost t).isEmpty }
  | most + 1, t =>
    match innermost t with
    | [] => .ok { text := t }
    | blocks => do
      let (t, warnings) ← pass fields t blocks
      let r ← passes fields most t
      return { r with warnings := warnings ++ r.warnings }

/-- The text with its conditionals resolved; an error if the passes do not suffice. -/
def resolve {ι : Type} (settings : Settings) (fields : Condition.Fields) (t : Text) :
    Merging ι Text := do
  let r ← .ofFault (passes fields settings.maxPasses.toNat t)
  if r.finished then .report r.warnings [] r.text else .fail (.passLimit settings.maxPasses t)

/-- The paragraph with the conditionals of its text resolved. -/
def resolveParagraph {ι : Type} (settings : Settings) (fields : Condition.Fields)
    (p : Paragraph) : Merging ι Paragraph :=
  return p.setText (← resolve settings fields p.text)

end MailMerge.Conditional
