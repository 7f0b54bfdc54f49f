import MailMerge.Value.Basic

/-!
# Fetching named sources

A named source is a list of records. It may be given by the address where it can be had; the answer
from there is JSON, either the list itself or an object that holds it under one of a few names.
-/

namespace MailMerge.Source

/-- What comes back from an address. -/
inductive Response where
  /-- The decoded content. -/
  | payload (v : Value)
  /-- The content is no JSON. -/
  | badJson (reason : Text)
  | timeout
  | failure (reason : Text)

/-- A request for the records at an address. -/
structure Request where
  url : Text
  /-- How many seconds the answer may take. -/
  seconds : Int
deriving DecidableEq, Repr

namespace Request

/-- How long a request may take if nothing else is said. -/
def usualSeconds : Int := 30

/-- The headers of every request. -/
def headers : List (Text × Text) :=
  [("Accept", "application/json")]

end Request

/-- Why a source has no records. -/
inductive Reason where
  | timeout (seconds : Int)
  | failure (reason : Text)
  | badJson (reason : Text)
  /-- The content is of another kind. -/
  | noList (kind : String)
deriving DecidableEq, Repr

/-- The reason in words. -/
def Reason.message : Reason → Text
  | timeout seconds => "request timed out after ".toList ++ Text.ofInt seconds ++ ['s']
  | failure reason => "request failed: ".toList ++ reason
  | badJson reason => "response is not valid JSON: ".toList ++ reason
  | noList kind => "expected a list of records, got ".toList ++ kind.toList

/-- A source that has no records. -/
structure FetchError where
  /-- The source's name, or its address if it has none. -/
  source : Text
  reason : Reason
deriving DecidableEq, Repr

/-- The error in words. -/
def FetchError.message (e : FetchError) : Text :=
  "Named source '".toList ++ e.source ++ "' could not be loaded: ".toList ++ e.reason.message

/-! ## Records of an answer -/

/-- The names under which an object may hold the records, the first one first. -/
def recordNames : List Text := ["records", "data", "items"]

/-- The items of a list. -/
def listItems? : Value → Option (List Value)
  | .list items => some items
  | _ => none

/-- The records in the content of an answer. -/
def records? : Value → Option (List Value)
  | .list items => some items
  | .record entries => recordNames.findSome? fun name => (Record.get? entries name).bind listItems?
  | _ => none

/-- The records of an answer, or why there are none. -/
def Response.records (seconds : Int) : Response → Except Reason (List Value)
  | payload v => (records? v).elim (.error (.noList v.kindName)) .ok
  | badJson reason => .error (.badJson reason)
  | timeout => .error (.timeout seconds)
  | failure reason => .error (.failure reason)

/-! ## Fetching -/

/-- The records at an address, for the source of a name. -/
def fetch (answers : Text → Response) (seconds : Int) (name url : Text) :
    Except FetchError (List Value) :=
  ((answers url).records seconds).mapError fun reason =>
    { source := if name = [] then url else name, reason }

/-- The sources with those that are given by an address fetched; and the requests that are made.
After the first source without records no more requests are made. -/
def fetchAll (answers : Text → Response) (seconds : Int) :
    Record → List Request × Except FetchError Record
  | [] => ([], .ok [])
  | (name, .text url) :: rest =>
    match fetch answers seconds name url with
    | .error e => ([{ url, seconds }], .error e)
    | .ok records =>
      let (requests, sources) := fetchAll answers seconds rest
      ({ url, seconds } :: requests, sources.map fun more => (name, .list records) :: more)
  | entry :: rest =>
    let (requests, sources) := fetchAll answers seconds rest
    (requests, sources.map fun more => entry :: more)

end MailMerge.Source
