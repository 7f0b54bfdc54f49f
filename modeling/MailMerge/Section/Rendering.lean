import MailMerge.Conditional.Inline
import MailMerge.Field.Substitution
import MailMerge.Section.Binding
import MailMerge.Section.Span

/-!
# Rendering a text

A text is rendered for one record: its sections are set aside, the conditionals and then the fields
of what is around them are resolved, and each section that is still there is rendered once per
record of its own and put back. So a section under a false condition is never bound, and the
values of fields are never read as templates.
-/

namespace MailMerge.Section

/-- The number that a placeholder holds. -/
def placeholderNumber (digits : Text) : Except Fault Nat :=
  if digits.length ≤ Numeral.maxDigits then
    .ok (Numeral.ofDigits (digits.filterMap Text.digitValue?))
  else
    .error .longNumeral

/-- A rendered section without the newline that is one too many. -/
def Span.trimmed (s : Span) (t : Text) : Text :=
  if s.trimNewline ∧ t.getLast? = some '\n' then t.dropLast else t

/-- The text rendered in a context. In a nested one, sections over collections look into the
current record only. -/
def render (settings : Settings) (c : Context) (nested : Bool) (t : Text) :
    Merging ImageRequest Text := do
  let spans := (Span.find t).1.attach
  Merging.report (Span.find t).2 [] ()
  let outer ← Conditional.resolve settings c.resolve (Span.setAside t 0 0 (Span.find t).1)
  let outer ← Field.substitute settings c true outer
  if spans.isEmpty then return outer
  let texts ← (Span.pieces outer).mapM fun piece =>
    match piece with
    | .char ch => pure [ch]
    | .placeholder digits => do
      let index ← .ofFault (placeholderNumber digits)
      match spans[index]? with
      | none => .fail (.fault .unknownPlaceholder)
      | some ⟨s, _hs⟩ => do
        let records ← Section.records settings s.opener c nested
        let texts ← records.zipIdx.mapM fun (record, i) =>
          render settings (c.forRow record i) true s.body
        return s.trimmed texts.flatten
  return texts.flatten
  termination_by t.length
  decreasing_by exact Span.length_body_of_mem_find _hs

end MailMerge.Section
