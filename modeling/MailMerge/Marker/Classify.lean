import MailMerge.Marker.Basic
import MailMerge.Text.Class
import MailMerge.Text.Case
import MailMerge.Text.WordChar

/-!
# What a marker says

Each form of marker but the field has a pattern, tried in a fixed order on the trimmed text
between the braces; a text that fits none is a field. Conditionals and sections are read in any
case; `IMAGE` and `PAGEBREAK` only in capitals, so that fields may be called `Image`.
-/

namespace MailMerge.Marker

/-! ## Parts of patterns -/

/-- An argument after at least one blank. -/
def argument? : Text → Option Text
  | [] => none
  | c :: rest =>
    let argument := Text.trimStart rest
    if Text.isBlank c ∧ argument ≠ [] then some argument else none

/-- A text that is the name of a section: a letter or an underscore, then word characters and
points. -/
def sectionName? : Text → Option Text
  | [] => none
  | c :: rest =>
    if (Text.isNameLetter c ∨ c = '_') ∧ rest.all (fun d => Text.isWordChar d || d == '.') then
      some (c :: rest)
    else
      none

/-! ## The patterns -/

/-- `IF condition`. -/
def ifStart? (t : Text) : Option Sense := do
  let argument ← argument? (← Text.dropKeyword? ['I', 'F'] t)
  return { kind := .ifStart, argument }

/-- `ELSEIF condition`, also written `ELSE IF`. -/
def elseIf? (t : Text) : Option Sense := do
  let rest ← Text.dropKeyword? ['E', 'L', 'S', 'E'] t
  let argument ← argument? (← Text.dropKeyword? ['I', 'F'] (Text.trimStart rest))
  return { kind := .elseIf, argument }

/-- `ELSE`. -/
def otherwise? (t : Text) : Option Sense :=
  if Text.dropKeyword? ['E', 'L', 'S', 'E'] t = some [] then some { kind := .otherwise } else none

/-- `/IF`. -/
def ifEnd? (t : Text) : Option Sense := do
  let rest ← Text.dropStart? ['/'] t
  if Text.dropKeyword? ['I', 'F'] (Text.trimStart rest) = some [] then
    some { kind := .ifEnd }
  else
    none

/-- `#name` for a collection, `@name` for a named source. -/
def sectionStart? : Text → Option Sense
  | [] => none
  | c :: rest =>
    if c = '#' ∨ c = '@' then
      (sectionName? (Text.trimStart rest)).map fun argument =>
        { kind := .sectionStart, argument, fromSource := c == '@' }
    else
      none

/-- `/name` for a collection, `/@name` for a named source. -/
def sectionEnd? (t : Text) : Option Sense := do
  let rest := Text.trimStart (← Text.dropStart? ['/'] t)
  match Text.dropStart? ['@'] rest with
  | some rest =>
    let argument ← sectionName? (Text.trimStart rest)
    return { kind := .sectionEnd, argument, fromSource := true }
  | none =>
    let argument ← sectionName? rest
    return { kind := .sectionEnd, argument }

/-- `IMAGE: name`. -/
def image? (t : Text) : Option Sense := do
  let rest ← Text.dropStart? ['I', 'M', 'A', 'G', 'E'] t
  let argument := Text.trimStart (← Text.dropStart? [':'] (Text.trimStart rest))
  if argument = [] then none else some { kind := .image, argument }

/-- `PAGEBREAK`, also written `PAGE_BREAK`. -/
def pageBreak? (t : Text) : Option Sense :=
  if t = "PAGEBREAK".toList ∨ t = "PAGE_BREAK".toList then some { kind := .pageBreak } else none

/-- A section end whose name is not that of a conditional. -/
def namedSectionEnd? (t : Text) : Option Sense :=
  (sectionEnd? t).filter fun s => Text.upper s.argument ≠ ['I', 'F']

/-! ## Classification -/

/-- What a trimmed text says: the first pattern that it fits, or else a field. -/
def classifyTrimmed (t : Text) : Sense :=
  (elseIf? t <|> ifStart? t <|> otherwise? t <|> ifEnd? t <|> sectionStart? t
    <|> namedSectionEnd? t <|> image? t <|> pageBreak? t).getD { kind := .field, argument := t }

/-- What the text between a pair of braces says. -/
def classify (inner : Text) : Sense :=
  classifyTrimmed (Text.trim inner)

end MailMerge.Marker
