import MailMerge.Docx.Package
import MailMerge.Merge.Basic
import MailMerge.Source.Fetch

/-!
# Merging a package

A template in a package is read, its named sources are fetched, it is merged, and the result is
written into the package. The first of these steps that fails decides what is reported.
-/

namespace MailMerge.Docx

/-- Why a package is not merged. -/
inductive Failure where
  | defect (d : Defect)
  | source (e : Source.FetchError)
  | merge (e : MergeError)

/-- The data for a merge. -/
structure MergeData where
  record : Record
  /-- Further variables. -/
  system : Record
  /-- Named sources, or the addresses to fetch them from. -/
  sources : Record
  fieldTypes : List (Text × Text)
  now : DateTime

/-- What a merge makes of a package. -/
structure Outcome where
  package : Package
  merged : Merged
  /-- The requests for named sources. -/
  requests : List Source.Request

/-- The package merged with data. -/
def merge (answers : Text → Source.Response) (settings : Settings) (data : MergeData)
    (p : Package) : Except Failure Outcome := do
  let template ← (Template.read p).mapError .defect
  let (requests, sources) := Source.fetchAll answers Source.Request.usualSeconds data.sources
  let sources ← sources.mapError .source
  let c := Context.ofSources data.record data.system sources data.fieldTypes data.now
  let merged ← (template.document.merge settings c).mapError .merge
  let package ← ({ template with document := merged.document }.write).mapError .defect
  return { package, merged, requests }

/-- The markers in a package, each with the name of its part. -/
def markers (p : Package) : Except Defect (List (Text × Marker)) := do
  let template ← Template.read p
  return template.document.paragraphs.flatMap fun (name, q) =>
    (Marker.scan q.text).map fun m => (name, m)

end MailMerge.Docx
