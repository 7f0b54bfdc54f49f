import MailMerge.Field.Spec
import MailMerge.Proofs.Text.Cut

/-!
# Field markers in writing

What a field marker asks for can be written as the text between its braces: the path, a colon before the
format, and two question marks before the default, which stands in quotes of one kind or the other.

Reading such a text cuts it at its first two question marks and the part before them at its first colon.
So a path holds neither of the two separators and a format no question marks in a row, while the default,
which comes last, may hold anything: what is between the outer quotes is not looked at.

**`parse_write`**: what a field marker asks for is read back from its text.
-/

namespace MailMerge.FieldSpec

variable {t : Text} {quote : Char} {s : FieldSpec}

/-! ## Writing -/

/-- A format after its colon. -/
def formatText : Option Text → Text
  | none => []
  | some format => ':' :: format

/-- A default after its question marks, between quotes. -/
def defaultText (quote : Char) : Option Text → Text
  | none => []
  | some default => " ?? " ++ quote :: (default ++ [quote])

/-- The text of what a field marker asks for, with the default in the given quotes. -/
def write (quote : Char) (s : FieldSpec) : Text :=
  s.path ++ formatText s.format ++ defaultText quote s.default

/-- A text that may stand before the question marks: there is something, without blanks at its ends, and
without two question marks in a row. -/
structure IsName (t : Text) : Prop where
  ne_nil : t ≠ []
  trim_eq : Text.trim t = t
  unasked : Text.contains "??" t = false

/-- What can be written: a path without a colon, and a format that is a name if there is one. -/
structure IsWritable (s : FieldSpec) : Prop where
  path : IsName s.path
  colon_notMem : ':' ∉ s.path
  format : ∀ format ∈ s.format, IsName format

/-! ## The part before the default -/

/-- The path and the format together are again a name. -/
theorem IsWritable.isName_body (h : IsWritable s) : IsName (s.path ++ formatText s.format) := by
  cases hf : s.format with
  | none =>
    rw [formatText, List.append_nil]
    exact h.path
  | some format =>
    have hformat := h.format format hf
    constructor
    · exact List.append_ne_nil_of_left_ne_nil h.path.ne_nil _
    · have htrim := Text.trim_between h.path.trim_eq h.path.ne_nil hformat.trim_eq hformat.ne_nil ":"
      rwa [List.append_assoc] at htrim
    · -- No pair of question marks reaches over the colon.
      have hpath : Text.cutFirst? "??" s.path = none := by simpa [Text.contains] using h.path.unasked
      have hnone : Text.cutFirst? "??" format = none := by simpa [Text.contains] using hformat.unasked
      rw [formatText, Text.contains, Text.cutFirst?_append_cons (by decide) (by decide) hpath, hnone]
      rfl

theorem IsWritable.ofBody_body (h : IsWritable s) {t : Text}
    (ht : Text.trim t = s.path ++ formatText s.format) (default : Option Text) :
    ofBody t default = { s with default } := by
  rw [ofBody, ht]
  cases hf : s.format with
  | none =>
    have huncut : Text.cutFirst? [':'] s.path = none := by
      apply Text.cutFirst?_eq_none_iff.2
      intro a b he
      apply h.colon_notMem
      rw [he]
      simp
    rw [formatText, List.append_nil, huncut]
  | some format =>
    have hformat := h.format format hf
    have hcut : Text.cutFirst? [':'] (s.path ++ formatText (some format)) = some (s.path, format) := by
      have hfirst := (Text.freeOf_singleton h.colon_notMem).cutFirst? format
      rwa [List.append_assoc] at hfirst
    rw [hcut]
    dsimp only
    rw [h.path.trim_eq, hformat.trim_eq, nonempty?, if_neg hformat.ne_nil]

/-! ## The default -/

/-- A text between quotes is what is between them, whatever it holds. -/
theorem unquote_quoted (hq : quote = '\'' ∨ quote = '"') (t : Text) :
    unquote (quote :: (t ++ [quote])) = t := by
  have hlast : (t ++ [quote]).getLast? = some quote := List.getLast?_concat
  rw [unquote, if_pos ⟨hq, hlast⟩, List.dropLast_concat]

theorem trim_quoted (hq : quote = '\'' ∨ quote = '"') (t : Text) :
    Text.trim (' ' :: quote :: (t ++ [quote])) = quote :: (t ++ [quote]) := by
  have hblank : Text.isBlank quote = false := by
    rcases hq with rfl | rfl <;> decide
  have hquoted : Text.trim (quote :: (t ++ [quote])) = quote :: (t ++ [quote]) := by
    apply Text.trim_eq_self
    · intro c hc
      cases hc
      exact hblank
    · intro c hc
      rw [← List.cons_append, List.getLast?_concat] at hc
      cases hc
      exact hblank
  have hspace := Text.trim_blanks (a := [' ']) (b := []) (by decide) (by simp) (quote :: (t ++ [quote]))
  rw [List.append_nil] at hspace
  exact hspace.trans hquoted

/-! ## Reading what is written -/

/-- **What a field marker asks for is read back from its text**, with the default character for
character. -/
theorem parse_write (h : IsWritable s) (hq : quote = '\'' ∨ quote = '"') : parse (write quote s) = s := by
  have hbody := h.isName_body
  have hnone : Text.cutFirst? "??" (s.path ++ formatText s.format) = none := by
    simpa [Text.contains] using hbody.unasked
  rw [parse, write]
  cases hd : s.default with
  | none =>
    rw [defaultText, List.append_nil, show Text.cutFirst? ['?', '?'] _ = none from hnone]
    dsimp only
    rw [h.ofBody_body hbody.trim_eq, ← hd]
  | some default =>
    -- The first question marks are those after the space, for there are none in the body.
    have hcut : Text.cutFirst? ['?', '?'] (s.path ++ formatText s.format ++ defaultText quote (some default)) =
        some (s.path ++ formatText s.format ++ [' '], ' ' :: quote :: (default ++ [quote])) := by
      have hafter := Text.cutFirst?_append_cons (c := ' ') (by decide) (by decide) hnone
        ("??" ++ ' ' :: quote :: (default ++ [quote]))
      rwa [Text.cutFirst?_of_dropStart? (Text.dropStart?_append _ _)] at hafter
    have htrim : Text.trim (s.path ++ formatText s.format ++ [' ']) = s.path ++ formatText s.format := by
      have hspace := Text.trim_blanks (a := []) (b := [' ']) (by simp) (by decide)
        (s.path ++ formatText s.format)
      exact hspace.trans hbody.trim_eq
    rw [hcut]
    dsimp only
    rw [trim_quoted hq, unquote_quoted hq, h.ofBody_body htrim, ← hd]

/-- A default that holds each of the separators and both kinds of quotes. -/
theorem parse_write_default :
    parse (write '"' { path := "Customer.Phone?", format := some "phone", default := some "ask \"it's ?? a:b\" " }) =
      { path := "Customer.Phone?", format := some "phone", default := some "ask \"it's ?? a:b\" " } := by
  have hpath : IsName "Customer.Phone?" := ⟨by decide, by decide, by decide⟩
  have hphone : IsName "phone" := ⟨by decide, by decide, by decide⟩
  apply parse_write _ (.inr rfl)
  constructor
  · exact hpath
  · decide
  · intro format hf
    cases hf
    exact hphone

end MailMerge.FieldSpec
