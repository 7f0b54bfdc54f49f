import MailMerge.Xml.Element

/-!
# Names of word-processing markup

The elements of a word-processing document that a merge looks into. All other elements are carried
along as they are.
-/

namespace MailMerge.Docx

/-- The namespace of word-processing markup. -/
def markupSpace : Text :=
  "http://schemas.openxmlformats.org/wordprocessingml/2006/main"

/-- A name of word-processing markup. -/
def tag (base : Text) : Xml.Name where
  space := markupSpace
  base := base

namespace Tag

/-- The root of the main part. -/
def document : Xml.Name := tag "document"

/-- The content of the main part. -/
def body : Xml.Name := tag "body"

def paragraph : Xml.Name := tag "p"

def paragraphProperties : Xml.Name := tag "pPr"

def run : Xml.Name := tag "r"

def runProperties : Xml.Name := tag "rPr"

def text : Xml.Name := tag "t"

def tab : Xml.Name := tag "tab"

/-- A line break or a page break. -/
def lineBreak : Xml.Name := tag "br"

def carriageReturn : Xml.Name := tag "cr"

/-- Where a page ended when the document was last laid out. -/
def renderedPageBreak : Xml.Name := tag "lastRenderedPageBreak"

def table : Xml.Name := tag "tbl"

def tableProperties : Xml.Name := tag "tblPr"

def tableGrid : Xml.Name := tag "tblGrid"

def row : Xml.Name := tag "tr"

def rowProperties : Xml.Name := tag "trPr"

/-- Table properties that hold for one row. -/
def rowExceptions : Xml.Name := tag "tblPrEx"

def cell : Xml.Name := tag "tc"

def cellProperties : Xml.Name := tag "tcPr"

/-- A content control around blocks. -/
def control : Xml.Name := tag "sdt"

def controlContent : Xml.Name := tag "sdtContent"

/-- The attribute with the kind of a break. -/
def breakKind : Xml.Name := tag "type"

/-- Elements around runs whose runs count as the paragraph's own. -/
def wrappers : List Xml.Name :=
  [tag "hyperlink", tag "ins", tag "smartTag", tag "customXml", tag "fldSimple"]

/-- Elements of a paragraph that are left out. -/
def ignored : List Xml.Name :=
  [tag "proofErr", tag "bookmarkStart", tag "bookmarkEnd", tag "del"]

end Tag
end MailMerge.Docx
