import MailMerge.Xml.Event
import MailMerge.Xml.Scope

/-!
# Reading a document

A well-formed document is an optional declaration, an optional document type and one element, with
spaces, comments and instructions around them. Line ends of all kinds count as newlines.
-/

namespace MailMerge.Xml

/-! ## Elements of events -/

/-- An element that is open. Text and children are kept in reverse. -/
structure Frame where
  /-- The name as it is written. -/
  label : Text
  scope : Scope
  name : Name
  attributes : List (Name × Text)
  text : Text := []
  children : List Element := []
  /-- The text since the last child, or since the start. -/
  pending : Text := []
deriving DecidableEq

namespace Frame

/-- A new element inside a scope. -/
def enter? (scope : Scope) (label : Text) (attributes : List (Text × Text)) : Option Frame := do
  if (attributes.map (·.1)).Nodup then
    let scope ← scope.enter? attributes
    let name ← scope.elementName? label
    let attributes ← scope.attributes? attributes
    return { label, scope, name, attributes }
  else
    none

/-- The element with the pending text put where it belongs. -/
def settle (f : Frame) : Frame :=
  match f.children with
  | [] => { f with text := f.pending.reverse, pending := [] }
  | e :: es => { f with children := e.withTail f.pending.reverse :: es, pending := [] }

/-- The element, now closed. -/
def element (f : Frame) : Element :=
  let f := f.settle
  .mk f.name f.attributes f.text f.children.reverse []

end Frame

/-- The element that events make, inside the open ones. -/
def build? : List Frame → List Event → Option Element
  | frames, .start label attributes :: events => do
    let scope := (frames.head?.map (·.scope)).getD Scope.initial
    let f ← Frame.enter? scope label attributes
    build? (f :: frames.modifyHead Frame.settle) events
  | f :: frames, .char c :: events => build? ({ f with pending := c :: f.pending } :: frames) events
  | f :: frames, .stop label :: events =>
    if label ≠ f.label then none
    else
      match frames with
      | [] => if events.isEmpty then some f.element else none
      | g :: frames => build? ({ g with children := f.element :: g.children } :: frames) events
  | _, _ => none

/-! ## The declaration -/

/-- A character of a value in the declaration. -/
def isDeclaredChar (c : Char) : Bool :=
  c.isAlphanum || c == '.' || c == '-' || c == '_'

/-- A name with its value after a space, and what follows them; nothing if only spaces are left. -/
def setting? : Text → Option (Option (Text × Text) × Text)
  | [] => some (none, [])
  | c :: t =>
    let t := skipSpace t
    if !isSpace c then none
    else if t = [] then some (none, [])
    else do
      let name := t.takeWhile fun c => c != '=' && !isSpace c
      let t ← Text.dropStart? ['='] (skipSpace (t.drop name.length))
      match skipSpace t with
      | [] => none
      | quote :: t =>
        if quote = '"' ∨ quote = '\'' then
          let (value, after) ← Text.cutFirst? [quote] t
          if value.all isDeclaredChar then some (some (name, value), after) else none
        else
          none

/-- Whether the document stands alone, from the last setting of its declaration. -/
def standsAlone? (name value rest : Text) : Option Bool :=
  if name ≠ "standalone".toList ∨ !rest.all isSpace then none
  else if value = "yes".toList then some true
  else if value = "no".toList then some false
  else none

/-- Whether the document stands alone, from its declaration: the version, then perhaps the
encoding, then perhaps whether it stands alone. -/
def declared? (t : Text) : Option Bool := do
  match ← setting? t with
  | (none, _) => none
  | (some (name, _), t) =>
    if name ≠ "version".toList then none
    else
      match ← setting? t with
      | (none, _) => return false
      | (some (name, value), t) =>
        if name ≠ "encoding".toList then standsAlone? name value t
        else if !value.head?.any Char.isAlpha then none
        else
          match ← setting? t with
          | (none, _) => return false
          | (some (name, value), t) => standsAlone? name value t

/-- Whether the document stands alone, and what follows its declaration, if there is one. -/
def declaration? (t : Text) : Option (Bool × Text) :=
  match Text.dropStart? ['<', '?', 'x', 'm', 'l'] t with
  | none => some (false, t)
  | some rest =>
    if rest.head?.any fun c => isSpace c || c == '?' then do
      let (body, after) ← Text.cutFirst? ['?', '>'] rest
      return (← declared? body, after)
    else
      some (false, t)

/-! ## Around the element -/

/-- What follows spaces, comments and instructions. -/
def skipMisc (t : Text) : Text :=
  match t with
  | [] => []
  | c :: rest =>
    if isSpace c then skipMisc rest
    else
      match _h : Doctype.item? (c :: rest) with
      | some (.nothing, after) => skipMisc after
      | _ => c :: rest
  termination_by t.length
  decreasing_by
    · simp
    · exact Doctype.length_of_item? _h

/-- The document type, if there is one, and what follows it. -/
def doctype? (standsAlone : Bool) (t : Text) : Option (Doctype × Text) :=
  match Text.dropStart? "<!DOCTYPE" t with
  | none => some ({ standsAlone }, t)
  | some t => Doctype.read? standsAlone t

/-- The element of a document, if the document is well-formed. -/
def parse? (t : Text) : Option Element := do
  let t := withNewlines ((Text.dropStart? ['\uFEFF'] t).getD t)
  let (standsAlone, t) ← declaration? t
  let (d, t) ← doctype? standsAlone (skipMisc t)
  let lexed ← lex 0 (skipMisc t)
  if lexed.depth = 0 ∧ skipMisc lexed.rest = [] then
    build? [] (← Event.ofTokens? d d.entities lexed.tokens)
  else
    none

end MailMerge.Xml
