import MailMerge.Docx.Reading
import MailMerge.Docx.Splice
import MailMerge.Docx.Writing
import MailMerge.Text.Utf8

/-!
# Packages

A word-processing file is a package of named members. The main part, page headers and page footers
are read as the parts of a document; when it is written, these are exchanged and all other members
are copied.
-/

namespace MailMerge.Docx

/-- A member of a package. -/
structure Member where
  name : Text
  content : ByteArray

/-- The members of a package in order. Of two with the same name the later one counts. -/
abbrev Package := List Member

namespace Package

/-- The content of the member of a name. -/
def content? (p : Package) (name : Text) : Option ByteArray :=
  ((p.filter fun m => m.name = name).getLast?).map (·.content)

/-- The stems of the names of parts that may go on with a number. -/
def numberedStems : List Text := ["header", "footer"]

/-- The name without its folder and ending names a part. -/
def isPartStem (t : Text) : Bool :=
  t = "document".toList ||
    numberedStems.any fun stem => (Text.dropStart? stem t).any fun n => n.all Text.isDecimalDigit

/-- The name is that of a part with blocks. A line end may follow. -/
def isPartName (name : Text) : Bool :=
  let name := if name.getLast? = some '\n' then name.dropLast else name
  match Text.dropStart? "word/" name with
  | none => false
  | some t =>
    match Text.dropStart? "lmx.".toList t.reverse with
    | none => false
    | some stem => isPartStem stem.reverse

/-- The names of the parts: the main part, then the others in the order of their names. -/
def partNames (p : Package) : List Text :=
  let others := (p.map (·.name)).filter fun name => name ≠ mainPart && isPartName name
  mainPart :: (others.eraseDups.mergeSort fun a b => !(b < a))

end Package

/-! ## Templates -/

/-- A document with the package that it is written into. -/
structure Template where
  package : Package
  /-- The XML that the parts were read from. -/
  sources : List (Text × Text)
  document : Document

namespace Template

/-- The parts of some names with their XML. Each part goes by the labels that the parts before it
have registered, and adds its own. -/
def readParts (p : Package) : Xml.Labels → List Text → Except Defect (List (Text × Part))
  | _, [] => .ok []
  | labels, name :: names => do
    let bytes := (p.content? name).getD .empty
    let xml ← (Text.ofBytes? bytes).elim (.error .noText) .ok
    let l := Labelling.ofPart labels xml
    let part ← readPart l name xml
    return (xml, part) :: (← readParts p l.labels names)

/-- The template in a package. -/
def read (p : Package) : Except Defect Template := do
  if (p.content? mainPart).isNone then throw .noMainPart
  let parts ← readParts p Xml.Labels.standard p.partNames
  return {
    package := p
    sources := parts.map fun (xml, part) => (part.name, xml)
    document := { parts := parts.map (·.2) } }

/-! ## New packages -/

/-- The declaration that the members of a new package begin with. -/
def xmlDeclaration : Text :=
  "<?xml version=\"1.0\" encoding=\"UTF-8\" standalone=\"yes\"?>"

/-- The list of content types of a new package. -/
def contentTypes : Text :=
  xmlDeclaration
    ++ "<Types xmlns=\"http://schemas.openxmlformats.org/package/2006/content-types\">".toList
    ++ "<Default Extension=\"rels\" ContentType=\"application/".toList
    ++ "vnd.openxmlformats-package.relationships+xml\"/>".toList
    ++ "<Default Extension=\"xml\" ContentType=\"application/xml\"/>".toList
    ++ "<Override PartName=\"/word/document.xml\" ContentType=\"application/".toList
    ++ "vnd.openxmlformats-officedocument.wordprocessingml.document.main+xml\"/>".toList
    ++ "</Types>".toList

/-- The relationships of a new package. -/
def relationships : Text :=
  xmlDeclaration
    ++ "<Relationships xmlns=\"".toList
    ++ "http://schemas.openxmlformats.org/package/2006/relationships\">".toList
    ++ "<Relationship Id=\"rId1\" Type=\"".toList
    ++ "http://schemas.openxmlformats.org/officeDocument/2006/relationships/".toList
    ++ "officeDocument\" Target=\"word/document.xml\"/>".toList
    ++ "</Relationships>".toList

/-- The main part of a new package, without blocks. -/
def emptyMainPart : Text :=
  xmlDeclaration ++ "<w:document xmlns:w=\"".toList ++ markupSpace
    ++ "\"><w:body></w:body></w:document>".toList

/-- A document that was not read from a package, in a new one. -/
def ofDocument (d : Document) : Template where
  package :=
    [ { name := "[Content_Types].xml", content := Text.toBytes contentTypes },
      { name := "_rels/.rels", content := Text.toBytes relationships },
      { name := mainPart, content := Text.toBytes emptyMainPart } ]
  sources := []
  document := d

/-! ## Writing -/

/-- A part as it is written: its blocks in the XML that it was read from, or in an empty main
part. -/
def writePart (t : Template) (p : Part) : Except Defect Text := do
  splice ((t.sources.lookup p.name).getD emptyMainPart) (← writeBlocks p.nodes)

/-- A member as it is written. -/
def writeMember (t : Template) (m : Member) : Except Defect Member := do
  match t.document.parts.find? fun p => p.name = m.name with
  | some p => return { m with content := Text.toBytes (← t.writePart p) }
  | none => return { m with content := (t.package.content? m.name).getD m.content }

/-- The package with the document in it. -/
def write (t : Template) : Except Defect Package :=
  t.package.mapM t.writeMember

end Template
end MailMerge.Docx
