import MailMerge.Text.Basic

/-!
# Defects of packages

Why a package cannot be read as a document, or a document not be written.
-/

namespace MailMerge.Docx

/-- Why reading or writing a package has no result. -/
inductive Defect where
  /-- The file is no package at all. -/
  | noPackage
  | noMainPart
  /-- A part is no text. -/
  | noText
  /-- A part is no well-formed document. -/
  | malformed (part : Text)
  /-- The main part's root has no body. -/
  | noBody (part : Text)
  /-- A node of this kind cannot stand among blocks. -/
  | misplaced (kind : String)
  /-- A part has no place for blocks. -/
  | noRoot
deriving DecidableEq, Repr

/-- The name of the main part. -/
def mainPart : Text := "word/document.xml"

/-- The defect in words. -/
def Defect.message : Defect → Text
  | noPackage => "Failed to read document: "
  | noMainPart => "Package has no ".toList ++ mainPart
  | noText => "Document part is not UTF-8: "
  | malformed part => "Malformed XML in ".toList ++ part ++ ": ".toList
  | noBody part => part ++ " has no body".toList
  | misplaced kind => "Cannot write node of type ".toList ++ kind.toList
  | noRoot => "Part has no body or header/footer root to write into"

end MailMerge.Docx
