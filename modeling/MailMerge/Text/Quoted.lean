import MailMerge.Text.Class
import MailMerge.Text.Printable

/-!
# Quoted texts

A text between quotes, as it appears inside a printed list or record. Single quotes stand around
it unless it holds a single quote and no double one. The quote, the backslash and whatever is not
printable are escaped.
-/

namespace MailMerge.Text

/-- A character inside the given quotes. -/
def escapeIn (quote c : Char) : Text :=
  if c = quote ∨ c = '\\' then ['\\', c]
  else if c = '\n' then ['\\', 'n']
  else if c = '\r' then ['\\', 'r']
  else if c = '\t' then ['\\', 't']
  else if isPrintable c then [c]
  else if c.toNat ≤ 0xFF then '\\' :: 'x' :: hex 2 c.toNat
  else if c.toNat ≤ 0xFFFF then '\\' :: 'u' :: hex 4 c.toNat
  else '\\' :: 'U' :: hex 8 c.toNat

/-- The quotes to put around a text. -/
def quoteFor (t : Text) : Char :=
  if '\'' ∈ t ∧ '"' ∉ t then '"' else '\''

/-- The text between quotes. -/
def quoted (t : Text) : Text :=
  let quote := quoteFor t
  quote :: t.flatMap (escapeIn quote) ++ [quote]

/-- The texts, quoted, as a list in brackets. -/
def quotedList (ts : List Text) : Text :=
  '[' :: join ", " (ts.map quoted) ++ [']']

end MailMerge.Text
