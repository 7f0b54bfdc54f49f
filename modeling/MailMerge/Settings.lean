import MailMerge.Number.Numeral
import MailMerge.Text.Class

/-!
# Settings of a merge
-/

namespace MailMerge

/-- Limits and defaults of one merge. -/
structure Settings where
  /-- How many passes a text may take until its conditionals are resolved. -/
  maxPasses : Int := 20
  /-- A section of more records is reported. -/
  maxSectionRows : Int := 100
  /-- Stands before amounts that bring no symbol of their own. -/
  currencySymbol : Text := "$"
  /-- Images are taken over after the merge. -/
  handlesImages : Bool := false

namespace Settings

/-- A positive whole number, or the default for any other text. -/
def positiveOr (default : Int) : Option Text → Int
  | none => default
  | some t =>
    match Numeral.wholeNumber? t with
    | some n => if n < 1 then default else n
    | none => default

/-- Settings with the given texts in place of the defaults. -/
def ofTexts (maxPasses maxSectionRows currencySymbol : Option Text) : Settings :=
  let defaults : Settings := {}
  { maxPasses := positiveOr defaults.maxPasses maxPasses
    maxSectionRows := positiveOr defaults.maxSectionRows maxSectionRows
    currencySymbol := currencySymbol.getD defaults.currencySymbol }

end Settings
end MailMerge
