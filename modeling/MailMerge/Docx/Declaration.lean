import MailMerge.Text.Class
import MailMerge.Text.WordChar
import MailMerge.Xml.Label

/-!
# Declarations of namespaces

The root tag of a part declares labels. A fragment that goes back into the part need not declare
them again, so those declarations are cut out of it.

All of this works on the text of a tag: a declaration is `xmlns:`, a label of word characters, and
a namespace in double quotes.
-/

namespace MailMerge.Docx

/-- A label with the namespace that it is declared for. -/
structure Declaration where
  label : Text
  space : Text
deriving DecidableEq, Repr

namespace Declaration

/-- The declaration at the start of a text, and what follows it. -/
def read? (t : Text) : Option (Declaration × Text) := do
  let t ← Text.dropStart? ['x', 'm', 'l', 'n', 's', ':'] t
  let label := t.takeWhile Text.isWordChar
  if label = [] then none
  else
    let t ← Text.dropStart? ['=', '"'] (t.drop label.length)
    let (space, after) ← Text.cutFirst? ['"'] t
    return ({ label, space }, after)

theorem length_of_read? {t after : Text} {d : Declaration} (h : read? t = some (d, after)) :
    after.length < t.length := by
  simp only [read?, Option.bind_eq_bind, Option.bind_eq_some_iff] at h
  obtain ⟨t₁, h₁, h⟩ := h
  split at h
  · simp at h
  · obtain ⟨t₂, h₂, h⟩ := Option.bind_eq_some_iff.1 h
    obtain ⟨⟨s, a⟩, h₃, h⟩ := Option.bind_eq_some_iff.1 h
    simp only [pure, Option.some.injEq, Prod.mk.injEq] at h
    obtain ⟨_, rfl⟩ := h
    have e₁ := congrArg List.length (Text.eq_append_of_dropStart? h₁)
    have e₂ := congrArg List.length (Text.eq_append_of_dropStart? h₂)
    have e₃ := Text.length_of_cutFirst? h₃
    simp only [List.length_append, List.length_drop, List.length_cons, List.length_nil] at e₁ e₂ e₃
    omega

theorem length_of_read?_dropWhile {c : Char} {t after : Text} {d : Declaration}
    (h : read? (t.dropWhile Text.isBlank) = some (d, after)) : after.length < (c :: t).length := by
  have h₁ := length_of_read? h
  have h₂ := (List.dropWhile_sublist Text.isBlank (l := t)).length_le
  simp only [List.length_cons]
  omega

/-- The declarations in a text, in order. -/
def scan (t : Text) : List Declaration :=
  match t with
  | [] => []
  | c :: rest =>
    match _h : read? (c :: rest) with
    | some (d, after) => d :: scan after
    | none => scan rest
  termination_by t.length
  decreasing_by
    · exact length_of_read? _h
    · simp

end Declaration

/-- The declarations in force: each label with its namespace. -/
abbrev Declarations := List Declaration

namespace Declarations

/-- The namespace of a label. -/
def space? (ds : Declarations) (label : Text) : Option Text :=
  (ds.find? fun d => d.label = label).map (·.space)

/-- The declarations with one more: it takes the place of one of the same label, or else comes
last. -/
def put (ds : Declarations) (d : Declaration) : Declarations :=
  if ds.any fun e => e.label = d.label then
    ds.map fun e => if e.label = d.label then d else e
  else
    ds ++ [d]

/-- The first tag of a document that is no instruction. -/
def rootTag? : Text → Option Text
  | [] => none
  | c :: t =>
    if c = '<' ∧ t.head? ≠ some '?' ∧ t.head? ≠ some '>' then
      match Text.cutFirst? ['>'] t with
      | some (inside, _) => some inside
      | none => rootTag? t
    else rootTag? t

/-- The declarations that the root tag of a document makes. -/
def ofDocument (xml : Text) : Declarations :=
  (Declaration.scan ((rootTag? xml).getD [])).foldl put []

/-- The label is one of those that unregistered namespaces are numbered with. -/
def isNumbered (label : Text) : Bool :=
  (Text.dropStart? ['n', 's'] label).any fun t => !t.isEmpty && t.all Text.isDecimalDigit

/-- The register with the declared labels; numbered ones are not taken over. -/
def register (ds : Declarations) (labels : Xml.Labels) : Xml.Labels :=
  (ds.filter fun d => !isNumbered d.label).foldl (fun ls d => ls.register d.label d.space) labels

/-- The text without the declarations that are in force, and without the blanks before these. -/
def strip (ds : Declarations) (t : Text) : Text :=
  match t with
  | [] => []
  | c :: rest =>
    if Text.isBlank c then
      match _h : Declaration.read? (rest.dropWhile Text.isBlank) with
      | some (d, after) =>
        if ds.space? d.label = some d.space then strip ds after
        else (c :: rest).take (rest.length + 1 - after.length) ++ strip ds after
      | none => c :: strip ds rest
    else c :: strip ds rest
  termination_by t.length
  decreasing_by
    · exact Declaration.length_of_read?_dropWhile _h
    · exact Declaration.length_of_read?_dropWhile _h
    · simp
    · simp

end Declarations
end MailMerge.Docx
