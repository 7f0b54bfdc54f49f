import MailMerge.Xml.Doctype

/-!
# Events

Content after the entities in it are replaced: characters and the start and end of elements, whose
attributes have their values, those that are missing their defaults.
-/

namespace MailMerge.Xml

/-- A part of content in which nothing is left to be replaced. -/
inductive Event where
  | char (c : Char)
  | start (name : Text) (attributes : List (Text × Text))
  | stop (name : Text)
deriving DecidableEq

namespace Event

/-- The defaults of the attributes that an element does not have. -/
def defaultsOf (d : Doctype) (element : Text) (given : List Text) : List (Text × Text) :=
  d.rules.filterMap fun r =>
    if r.element = element ∧ !given.any (· = r.name) then r.default.map fun value => (r.name, value)
    else none

/-- The attributes of an element with their values. -/
def attributes? (d : Doctype) (entities : Entities) (element : Text)
    (given : List (Text × List Piece)) : Option (List (Text × Text)) := do
  let valued ← given.mapM fun (name, ps) => do
    let isWords := (d.rule? element name).any (·.isWords)
    return (name, ← d.valueOf? entities isWords ps)
  return valued ++ defaultsOf d element (given.map (·.1))

/-- The events that tokens make. The text of an entity has to close what it opens. -/
def ofTokens? (d : Doctype) (entities : Entities) (tokens : List Token) : Option (List Event) :=
  match tokens with
  | [] => some []
  | .char c :: tokens => (ofTokens? d entities tokens).map (.char c :: ·)
  | .stop name :: tokens => (ofTokens? d entities tokens).map (.stop name :: ·)
  | .start name given :: tokens =>
    match attributes? d entities name given with
    | none => none
    | some attributes => (ofTokens? d entities tokens).map (.start name attributes :: ·)
  | .entity name :: tokens =>
    match _h : entities.lookup name with
    | some (some t) =>
      match lex 1 t with
      | some ⟨inner, 1, []⟩ =>
        match ofTokens? d (entities.close name) inner with
        | none => none
        | some inner => (ofTokens? d entities tokens).map (inner ++ ·)
      | _ => none
    | _ => none
  termination_by (entities.openCount, tokens.length)
  decreasing_by
    · exact Prod.Lex.right _ (Nat.lt_succ_self _)
    · exact Prod.Lex.right _ (Nat.lt_succ_self _)
    · exact Prod.Lex.right _ (Nat.lt_succ_self _)
    · exact Prod.Lex.left _ _ (Entities.openCount_close_lt _h)
    · exact Prod.Lex.right _ (Nat.lt_succ_self _)

end Event
end MailMerge.Xml
