import MailMerge.Text.Basic

/-!
# Markers

A marker is a part of a template text between two pairs of braces: a field, one end of a
conditional or of a repeating section, an image or a page break.
-/

namespace MailMerge

/-- What a marker asks for. -/
inductive Marker.Kind where
  | field
  | ifStart
  | elseIf
  | otherwise
  | ifEnd
  | sectionStart
  | sectionEnd
  | image
  | pageBreak
deriving DecidableEq, Repr

namespace Marker

/-- The name of the kind, for listings. -/
def Kind.name : Kind → Text
  | field => "field"
  | ifStart => "if"
  | elseIf => "elseif"
  | otherwise => "else"
  | ifEnd => "end_if"
  | sectionStart => "section_start"
  | sectionEnd => "section_end"
  | image => "image"
  | pageBreak => "page_break"

/-- The marker belongs to a conditional. -/
def Kind.isConditional : Kind → Bool
  | ifStart | elseIf | otherwise | ifEnd => true
  | _ => false

/-- The marker is an end of a repeating section. -/
def Kind.isSection : Kind → Bool
  | sectionStart | sectionEnd => true
  | _ => false

/-- What the text between the braces says. The argument is the condition, the section's name, the
field or the image; a section repeats a collection or, marked with an at sign, a named source. -/
structure Sense where
  kind : Kind
  argument : Text := []
  fromSource : Bool := false
deriving DecidableEq, Repr

end Marker

/-- A marker at its place in a text. -/
structure Marker extends Marker.Sense where
  /-- The whole marker with its braces. -/
  text : Text
  /-- The text between the braces, trimmed. -/
  inner : Text
  /-- The offset of the opening braces. -/
  start : Nat
  /-- The offset after the closing braces. -/
  stop : Nat
deriving DecidableEq, Repr

namespace Marker

/-- Two section markers are about the same section: name and kind of source agree. -/
def sameSection (m opener : Marker) : Bool :=
  m.argument == opener.argument && m.fromSource == opener.fromSource

/-- The marker opens a section of the same name as another opener does. -/
def opensLike (m opener : Marker) : Bool :=
  m.kind == .sectionStart && m.sameSection opener

/-- The marker closes the section that the opener starts. -/
def closes (m opener : Marker) : Bool :=
  m.kind == .sectionEnd && opener.kind == .sectionStart && m.sameSection opener

end Marker
end MailMerge
