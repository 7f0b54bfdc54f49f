import MailMerge.Section.Image

/-!
# Open paragraphs

A paragraph is open if neither it nor a table or row around it is marked as rendered. Stages that
work paragraph by paragraph rewrite the open ones only.
-/

namespace MailMerge.Node

mutual

/-- The node at a level, with its open paragraphs rewritten. -/
def rewriteOpenIn (f : Paragraph → Merging PendingImage Paragraph) :
    Level → Node → Merging PendingImage Node
  | .blocks, paragraph p false => return paragraph (← f p)
  | .blocks, table attributes rows false => return table attributes (← rewriteOpen f .rows 0 rows)
  | .rows, row attributes cells false => return row attributes (← rewriteOpen f .cells 0 cells)
  | .cells, cell attributes children rendered =>
    return cell attributes (← rewriteOpen f .blocks 0 children) rendered
  | _, n => pure n

/-- The nodes of a list from an index on, with their open paragraphs rewritten. -/
def rewriteOpen (f : Paragraph → Merging PendingImage Paragraph) (level : Level) (index : Nat) :
    List Node → Merging PendingImage (List Node)
  | [] => pure []
  | n :: ns => do
    let n ← (rewriteOpenIn f level n).under index
    let ns ← rewriteOpen f level (index + 1) ns
    return n :: ns

end

end MailMerge.Node
