import MailMerge.Xml.Declaration
import MailMerge.Xml.Entity

/-!
# Document types

The declarations at the head of a document. Entities and the defaults of attributes are kept; the
content models of elements and the notations are only checked for their form. Of two declarations of
the same thing the first counts.

A reference to a parameter stands for declarations outside the document. They are never read, and
after such a reference no further declaration counts, unless the document says that it stands alone.
-/

namespace MailMerge.Xml

/-- What is declared of an attribute of an element. -/
structure AttributeRule where
  element : Text
  name : Text
  /-- The value is a list of words, in which spaces mean no more than a gap. -/
  isWords : Bool
  default : Option Text
deriving DecidableEq

/-- What the head of a document declares. -/
structure Doctype where
  /-- The document says that no declaration outside matters. -/
  standsAlone : Bool := false
  entities : Entities := []
  rules : List AttributeRule := []
  /-- There are declarations outside. -/
  hasOutside : Bool := false
  /-- Further declarations do not count. -/
  isClosed : Bool := false
deriving DecidableEq

namespace Doctype

/-- An entity that is not known may be declared outside. -/
def isLenient (d : Doctype) : Bool :=
  d.hasOutside && !d.standsAlone

/-! ## Literals -/

/-- The characters of a public identifier. -/
def isPublicChar (c : Char) : Bool :=
  c.isAlphanum || "-'()+,./:=?;!*#@$_% \n\r".toList.contains c

/-- What a reference is replaced by at once: a character that is given by its number. Other
references stay as they are written. -/
def atOnce (written : Text) : Piece → Text
  | .char c => if written.head? = some '#' then [c] else '&' :: written
  | .entity _ => '&' :: written

/-- The replacement text that a literal stands for: numbers of characters are replaced at once,
references to entities when the text is used. -/
def entityText? (t : Text) : Option Text :=
  match t with
  | [] => some []
  | c :: rest =>
    if c = '%' then none
    else if c = '&' then
      match _h : reference? rest with
      | none => none
      | some (p, after) =>
        (entityText? after).map (atOnce (rest.take (rest.length - after.length)) p ++ ·)
    else (entityText? rest).map (c :: ·)
  termination_by t.length
  decreasing_by
    · have := length_of_reference? _h
      simp only [List.length_cons]
      omega
    · simp

/-- A list of words with one space between neighbours. -/
def joinWords (t : Text) : Text :=
  Text.join [' '] ((Text.splitOn ' ' t).filter fun word => !word.isEmpty)

/-- The value of an attribute, from its pieces. -/
def valueOf? (d : Doctype) (entities : Entities) (isWords : Bool) (ps : List Piece) :
    Option Text :=
  (expandPieces d.isLenient entities ps).map fun t => if isWords then joinWords t else t

/-! ## Entities and notations -/

/-- The document type with one more entity, unless it is known. -/
def addEntity (d : Doctype) (name : Text) (body : Option Text) : Doctype :=
  if d.isClosed || (commonEntities.lookup name).isSome || (d.entities.lookup name).isSome then d
  else { d with entities := d.entities ++ [(name, body)] }

/-- The marks name something outside the document by its identifiers; what follows them. -/
def takeOutside? : List Mark → Option (List Mark)
  | .name kind none :: .literal first :: ms =>
    if kind = "SYSTEM".toList then some ms
    else
      match ms with
      | .literal _ :: ms =>
        if kind = "PUBLIC".toList ∧ first.all isPublicChar then some ms else none
      | _ => none
  | _ => none

/-- A declaration of an entity, or of a parameter. -/
def declareEntity (d : Doctype) : List Mark → Option Doctype
  | .percent :: .name name none :: [.literal value] =>
    if isName name && (d.isClosed || (entityText? value).isSome) then some d else none
  | .name name none :: [.literal value] =>
    if !isName name then none
    else if d.isClosed then some d
    else (entityText? value).map fun t => d.addEntity name (some t)
  | .percent :: .name name none :: ms =>
    if isName name && takeOutside? ms == some [] then some d else none
  | .name name none :: ms =>
    if !isName name then none
    else
      match takeOutside? ms with
      | some [] => some (d.addEntity name none)
      | some [.name data none, .name format none] =>
        if data = "NDATA".toList && isName format then some (d.addEntity name none) else none
      | _ => none
  | _ => none

/-- A declaration of a notation has its form. -/
def isNotation : List Mark → Bool
  | .name name none :: .name kind none :: [.literal identifier] =>
    isName name
      && (kind == "SYSTEM".toList || (kind == "PUBLIC".toList && identifier.all isPublicChar))
  | .name name none :: ms => isName name && takeOutside? ms == some []
  | _ => false

/-! ## Elements -/

/-- The marks go on and end a content model. Each open group has one kind of separator, once there
is one; an item may be due. -/
def isModel : (groups : List (Option Mark)) → (due : Bool) → List Mark → Bool
  | group :: groups, true, .openParen :: ms => isModel (none :: group :: groups) true ms
  | groups, true, .name _ _ :: ms => isModel groups false ms
  | _ :: groups, false, .closeParen _ :: ms =>
    if groups.isEmpty then ms.isEmpty else isModel groups false ms
  | group :: groups, false, m :: ms =>
    (m == .bar || m == .comma) && (group.isNone || group == some m)
      && isModel (some m :: groups) true ms
  | _, _, _ => false

/-- The marks go on and end a list of elements among which text may stand. -/
def isMixed : List Mark → Bool
  | [.closeParen sign] => sign == some '*'
  | .bar :: .name _ none :: ms => isMixed ms
  | _ => false

/-- A declaration of an element has its form. -/
def isElement : List Mark → Bool
  | .name _ none :: [.name kind none] => kind == "EMPTY".toList || kind == "ANY".toList
  | .name _ none :: .openParen :: .keyword word :: ms =>
    word == "PCDATA".toList && (ms == [.closeParen none] || isMixed ms)
  | .name _ none :: .openParen :: ms => isModel [none] true ms
  | _ => false

/-! ## Attributes -/

/-- The types of attributes whose values are words. -/
def wordTypes : List Text :=
  ["ID", "IDREF", "IDREFS", "ENTITY", "ENTITIES", "NMTOKEN", "NMTOKENS"]

/-- The marks are a list of choices in parentheses; what follows it. -/
def takeChoices? (isChoice : Mark → Bool) : List Mark → Option (List Mark)
  | m :: .bar :: ms => if isChoice m then takeChoices? isChoice ms else none
  | m :: .closeParen none :: ms => if isChoice m then some ms else none
  | _ => none

/-- The mark may be chosen as a value. -/
def isValueChoice : Mark → Bool
  | .name _ none => true
  | .word _ => true
  | _ => false

/-- The mark may be chosen as a notation. -/
def isNotationChoice : Mark → Bool
  | .name t none => isName t
  | _ => false

/-- Whether the type of an attribute makes its value a list of words, and what follows the type. -/
def takeType? : List Mark → Option (Bool × List Mark)
  | .openParen :: ms => (takeChoices? isValueChoice ms).map fun ms => (true, ms)
  | .name type none :: ms =>
    if type = "CDATA".toList then some (false, ms)
    else if wordTypes.any (· = type) then some (true, ms)
    else
      match ms with
      | .openParen :: ms =>
        if type = "NOTATION".toList then
          (takeChoices? isNotationChoice ms).map fun ms => (true, ms)
        else
          none
      | _ => none
  | _ => none

/-- The default of an attribute as it is written, and what follows it. -/
def takeDefault? : List Mark → Option (Option Text × List Mark)
  | .literal value :: ms => some (some value, ms)
  | .keyword word :: .literal value :: ms =>
    if word = "FIXED".toList then some (some value, ms) else none
  | .keyword word :: ms =>
    if word = "IMPLIED".toList ∨ word = "REQUIRED".toList then some (none, ms) else none
  | _ => none

/-- What is declared of an attribute of an element. -/
def rule? (d : Doctype) (element name : Text) : Option AttributeRule :=
  d.rules.find? fun r => r.element = element ∧ r.name = name

/-- The document type with one more rule, unless there is one for the attribute. -/
def addRule (d : Doctype) (r : AttributeRule) : Doctype :=
  if (d.rule? r.element r.name).isSome then d else { d with rules := d.rules ++ [r] }

/-- The value of a default. -/
def defaultOf? (d : Doctype) (isWords : Bool) : Option Text → Option (Option Text)
  | none => some none
  | some t => do
    let (ps, _) ← value? none t
    some <$> d.valueOf? d.entities isWords ps

/-- The document type with the attributes of an element that the marks declare, at most so many. -/
def declareAttributes (element : Text) : (most : Nat) → Doctype → List Mark → Option Doctype
  | _, d, [] => some d
  | 0, _, _ => none
  | most + 1, d, .name name none :: ms => do
    let (isWords, ms) ← takeType? ms
    let (default, ms) ← takeDefault? ms
    if d.isClosed then declareAttributes element most d ms
    else
      let rule : AttributeRule :=
        { element, name, isWords, default := ← d.defaultOf? isWords default }
      declareAttributes element most (d.addRule rule) ms
  | _, _, _ => none

/-! ## The document type -/

/-- The document type with a declaration. -/
def declare (d : Doctype) (kind : Text) (ms : List Mark) : Option Doctype :=
  if kind = "ENTITY".toList then d.declareEntity ms
  else if kind = "ELEMENT".toList then if isElement ms then some d else none
  else if kind = "NOTATION".toList then if isNotation ms then some d else none
  else if kind = "ATTLIST".toList then
    match ms with
    | .name element none :: ms => declareAttributes element ms.length d ms
    | _ => none
  else none

/-- A declaration after its opening: its kind, its marks, and what follows it. -/
def declaration? (t : Text) : Option (Text × List Mark × Text) := do
  let kind := t.takeWhile Char.isAlpha
  let t := t.dropWhile Char.isAlpha
  if t.head?.any isSpace then
    let (ms, closing, after) ← marks? t
    if closing = '>' then some (kind, ms, after) else none
  else
    none

/-- The document type after a reference to a parameter. -/
def withParameter (d : Doctype) : Doctype :=
  { d with hasOutside := true, isClosed := !d.standsAlone }

/-- What follows the name of a parameter. -/
def parameter? (t : Text) : Option Text := do
  let (name, after) ← Text.cutFirst? [';'] t
  if isName name then some after else none

theorem length_of_declaration? {t after kind : Text} {ms : List Mark}
    (h : declaration? t = some (kind, ms, after)) : after.length < t.length := by
  unfold declaration? at h
  dsimp only at h
  have hd := length_dropWhile_le Char.isAlpha t
  split at h
  · obtain ⟨⟨ms', closing, rest⟩, hm, h⟩ := Option.bind_eq_some_iff.1 h
    dsimp only at h
    split at h
    · simp only [Option.some.injEq, Prod.mk.injEq] at h
      have := length_of_marks? hm
      rw [← h.2.2]
      omega
    · cases h
  · cases h

theorem length_of_parameter? {t after : Text} (h : parameter? t = some after) :
    after.length < t.length := by
  unfold parameter? at h
  simp only [Option.bind_eq_bind, Option.bind_eq_some_iff] at h
  obtain ⟨⟨name, rest⟩, hc, h⟩ := h
  have := Text.length_of_cutFirst? hc
  split at h
  · simp only [Option.some.injEq] at h
    rw [← h]
    simp only [List.length_cons, List.length_nil] at this
    omega
  · cases h

/-- What stands in the brackets of a document type. -/
inductive Item where
  | nothing
  | parameter
  | declaration (kind : Text) (ms : List Mark)

/-- The item at the start of a text, and what follows it. -/
def item? : Text → Option (Item × Text)
  | '%' :: t => (parameter? t).map fun after => (.parameter, after)
  | '<' :: '?' :: t => (instruction? t).map fun after => (.nothing, after)
  | '<' :: '!' :: '-' :: '-' :: t => (comment? t).map fun after => (.nothing, after)
  | '<' :: '!' :: t => (declaration? t).map fun (kind, ms, after) => (.declaration kind ms, after)
  | _ => none

theorem length_of_item? {t after : Text} {item : Item} (h : item? t = some (item, after)) :
    after.length < t.length := by
  unfold item? at h
  split at h
  · obtain ⟨r, hr, he⟩ := Option.map_eq_some_iff.1 h
    simp only [Prod.mk.injEq] at he
    have := length_of_parameter? hr
    rw [← he.2]
    simp only [List.length_cons]
    omega
  · obtain ⟨r, hr, he⟩ := Option.map_eq_some_iff.1 h
    simp only [Prod.mk.injEq] at he
    have := length_of_instruction? hr
    rw [← he.2]
    simp only [List.length_cons]
    omega
  · obtain ⟨r, hr, he⟩ := Option.map_eq_some_iff.1 h
    simp only [Prod.mk.injEq] at he
    have := length_of_comment? hr
    rw [← he.2]
    simp only [List.length_cons]
    omega
  · obtain ⟨⟨kind, ms, r⟩, hr, he⟩ := Option.map_eq_some_iff.1 h
    simp only [Prod.mk.injEq] at he
    have := length_of_declaration? hr
    rw [← he.2]
    simp only [List.length_cons]
    omega
  · cases h

/-- The document type after an item. -/
def take (d : Doctype) : Item → Option Doctype
  | .nothing => some d
  | .parameter => some d.withParameter
  | .declaration kind ms => d.declare kind ms

/-- The document type with the declarations up to a closing bracket, and what follows the
bracket. -/
def items? (d : Doctype) (t : Text) : Option (Doctype × Text) :=
  match t with
  | [] => none
  | c :: rest =>
    if isSpace c then d.items? rest
    else if c = ']' then if Text.startsWith [']', '>'] rest then none else some (d, rest)
    else
      match _h : item? (c :: rest) with
      | none => none
      | some (item, after) =>
        match d.take item with
        | none => none
        | some d => d.items? after
  termination_by t.length
  decreasing_by
    · simp
    · exact length_of_item? _h

/-- What the marks before the brackets say: there is a name, perhaps with identifiers. -/
def ofHead? (standsAlone : Bool) : List Mark → Option Doctype
  | [.name _ none] => some { standsAlone }
  | .name _ none :: ms =>
    if takeOutside? ms == some [] then some { standsAlone, hasOutside := true } else none
  | _ => none

/-- A document type after its opening, and what follows it. -/
def read? (standsAlone : Bool) (t : Text) : Option (Doctype × Text) := do
  if !t.head?.any isSpace then none
  else
    let (ms, closing, t) ← marks? t
    let d ← ofHead? standsAlone ms
    if closing = '>' then return (d, t)
    else
      let (d, t) ← d.items? t
      let after ← Text.dropStart? ['>'] (skipSpace t)
      return (d, after)

end Doctype
end MailMerge.Xml
