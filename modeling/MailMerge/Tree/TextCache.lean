import MailMerge.Text.Basic

/-!
# Texts read before

Reading a node's text takes a walk through the node. A cache keeps the texts that were read, for
each document, until the document changes; nodes are known by numbers.
-/

namespace MailMerge

/-- The texts read so far, and how often a text was found or had to be read. -/
structure TextCache where
  /-- Document, node and text. -/
  entries : List (Text × Nat × Text) := []
  hits : Nat := 0
  misses : Nat := 0

namespace TextCache

/-- The text that is kept for a node of a document. -/
def find? (cache : TextCache) (document : Text) (node : Nat) : Option Text :=
  (cache.entries.find? fun e => e.1 = document ∧ e.2.1 = node).map (·.2.2)

/-- The text of a node: the one that is kept, or else the given one, which is kept from now on. -/
def read (cache : TextCache) (document : Text) (node : Nat) (current : Text) : Text × TextCache :=
  match cache.find? document node with
  | some t => (t, { cache with hits := cache.hits + 1 })
  | none =>
    (current,
      { cache with
        entries := (document, node, current) :: cache.entries
        misses := cache.misses + 1 })

/-- The cache without the texts of a document. -/
def invalidate (cache : TextCache) (document : Text) : TextCache :=
  { cache with entries := cache.entries.filter fun e => e.1 ≠ document }

/-- The empty cache, which has counted nothing. -/
def clear (_ : TextCache) : TextCache := {}

end TextCache

/-- What is noted of a document while it is merged: warnings, each once, and the numbers of the
nodes marked as rendered. -/
structure MergeNotes where
  warnings : List Text := []
  marked : List Nat := []

namespace MergeNotes

/-- One more warning, unless it is there. -/
def warn (notes : MergeNotes) (t : Text) : MergeNotes :=
  { notes with warnings := if t ∈ notes.warnings then notes.warnings else notes.warnings ++ [t] }

/-- One more node that is marked. -/
def mark (notes : MergeNotes) (node : Nat) : MergeNotes :=
  { notes with marked := node :: notes.marked }

/-- The node is marked. -/
def isMarked (notes : MergeNotes) (node : Nat) : Bool :=
  notes.marked.contains node

end MergeNotes
end MailMerge
