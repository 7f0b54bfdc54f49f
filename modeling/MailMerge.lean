import MailMerge.Text.Case
import MailMerge.Text.Printable
import MailMerge.Text.WordChar
import MailMerge.Number.Shortest
import MailMerge.Number.Fixed
import MailMerge.Number.Numeral
import MailMerge.Calendar.Iso
import MailMerge.Calendar.Instant
import MailMerge.Value.Coercion
import MailMerge.Value.Json
import MailMerge.Marker.Scan
import MailMerge.Condition.Token
import MailMerge.Context
import MailMerge.Settings
import MailMerge.Condition.Lexer
import MailMerge.Condition.Evaluation
import MailMerge.Format.Basic
import MailMerge.Field.Substitution
import MailMerge.Tree.Path
import MailMerge.Tree.Snapshot
import MailMerge.Conditional.Inline
import MailMerge.Conditional.Nodes
import MailMerge.Section.Rendering
import MailMerge.Section.Template
import MailMerge.Section.Expansion
import MailMerge.Merge.Basic
import MailMerge.Tree.Editing
import MailMerge.Tree.TextCache
import MailMerge.Xml.Element
import MailMerge.Xml.Reference
import MailMerge.Xml.Token
import MailMerge.Xml.Entity
import MailMerge.Xml.Declaration
import MailMerge.Xml.Doctype
import MailMerge.Xml.Reading
import MailMerge.Xml.Writing
import MailMerge.Docx.Tag
import MailMerge.Docx.Declaration
import MailMerge.Docx.Reading
import MailMerge.Docx.Package
import MailMerge.Value.JsonReading
import MailMerge.Source.Listing
import MailMerge.Source.RecordText
import MailMerge.Docx.Merge
import MailMerge.Proofs.Marker.Token
import MailMerge.Proofs.Conditional.Innermost
import MailMerge.Proofs.Conditional.Nodes
import MailMerge.Proofs.Conditional.Passes
import MailMerge.Proofs.Conditional.Resolved
import MailMerge.Proofs.Merge.Final
import MailMerge.Proofs.Merge.Values
import MailMerge.Proofs.Conditional.Unselected
import MailMerge.Proofs.Merge.Results
import MailMerge.Proofs.Nesting.Expansion
import MailMerge.Proofs.Section.Reference
import MailMerge.Proofs.Section.Table
import MailMerge.Proofs.Merge.Shielded
import MailMerge.Proofs.Condition.Recognition
import MailMerge.Proofs.Conditional.Lines
import MailMerge.Proofs.Section.Bindings
import MailMerge.Proofs.Condition.Escapes
import MailMerge.Proofs.Cache.Cached
import MailMerge.Proofs.Cache.Agreement
import MailMerge.Proofs.Cache.Conditional
import MailMerge.Proofs.Cache.Expansion
import MailMerge.Proofs.Cache.Merge
import MailMerge.Proofs.Xml.Extended
import MailMerge.Proofs.Xml.Prolog
import MailMerge.Proofs.Xml.Content
import MailMerge.Proofs.Xml.Tag
import MailMerge.Proofs.Xml.Filled
import MailMerge.Proofs.Docx.Runs
import MailMerge.Proofs.Docx.Blocks
import MailMerge.Proofs.Docx.RoundTrip
import MailMerge.Proofs.Xml.Sound
import MailMerge.Proofs.Docx.Labels
import MailMerge.Proofs.Docx.Stripped
import MailMerge.Proofs.Docx.Fragments
import MailMerge.Proofs.Tree.Carried
import MailMerge.Proofs.Merge.Partwise
import MailMerge.Proofs.Merge.Plain
import MailMerge.Proofs.Section.Siblings
import MailMerge.Proofs.Docx.Framed
import MailMerge.Proofs.Docx.Readable
import MailMerge.Proofs.Docx.Spliced
import MailMerge.Proofs.Section.Captured
import MailMerge.Proofs.Section.Lines
import MailMerge.Proofs.Images.InPlace
import MailMerge.Proofs.Field.Markerwise
import MailMerge.Proofs.Condition.Spelling
import MailMerge.Proofs.Condition.Ordering
import MailMerge.Proofs.Field.Written
import MailMerge.Proofs.Condition.Symmetric
import MailMerge.Proofs.Format.Whole
import MailMerge.Proofs.Format.Faults
import MailMerge.Proofs.Format.Phone
import MailMerge.Proofs.Marker.Scanned
import MailMerge.Proofs.Merge.Leftover
import MailMerge.Proofs.Context.Scoped
import MailMerge.Proofs.Conditional.Adjacent
import MailMerge.Proofs.Section.Search
import MailMerge.Proofs.Section.MarkerLine
import MailMerge.Proofs.Value.Composition
import MailMerge.Proofs.Marker.Patterns
