import MailMerge.Text.Class
import MailMerge.Value.Basic

/-!
# Listings of named sources

Named sources can be listed in a text, one on a line: the source's name, an equals sign and the
address that its records come from. Blank lines and lines that start with a number sign do not
count.
-/

namespace MailMerge.Source

/-- A line of a listing that names no source. -/
structure BadLine where
  /-- The line's number, from 1. -/
  number : Nat
deriving DecidableEq, Repr

/-- The bad line in words. -/
def BadLine.message (l : BadLine) : Text :=
  "Line ".toList ++ Text.ofNat l.number ++ ": expected 'Alias = URL'".toList

/-- The line does not count. -/
def isIdle (line : Text) : Bool :=
  line = [] || line.head? = some '#'

/-- The name and the address on a line; at signs before the name are dropped. -/
def entry? (line : Text) : Option (Text × Text) :=
  (Text.cutFirst? ['='] line).map fun (name, address) =>
    ((Text.trim name).dropWhile (· == '@'), Text.trim address)

/-- The sources of the lines from a number on, added to those before. -/
def readLines (sources : Record) (number : Nat) : List Text → Except BadLine Record
  | [] => .ok sources
  | line :: lines =>
    let line := Text.trim line
    if isIdle line then readLines sources (number + 1) lines
    else
      match entry? line with
      | none => .error { number }
      | some (name, address) =>
        readLines (sources.insert name (.text address)) (number + 1) lines

/-- The names in a listing with their addresses. Of two lines with the same name the later one
counts. -/
def readListing (t : Text) : Except BadLine Record :=
  readLines [] 1 (Text.anyLines t)

end MailMerge.Source
