import MailMerge.Text.Class
import MailMerge.Xml.Char

/-!
# References and attribute values

A reference stands for a character by its number or for an entity by its name; a few entities are
known everywhere. In the value of an attribute each space or line end counts as one space, while a
space that is written as a reference is kept.
-/

namespace MailMerge.Xml

/-- A piece of text: a character, or an entity that is to be replaced. -/
inductive Piece where
  | char (c : Char)
  | entity (name : Text)
deriving DecidableEq, Repr

/-! ## References -/

/-- The character of a number, if a document may hold it. -/
def characterOf? (n : Nat) : Option Char :=
  if n.isValidChar ∧ isLegal (Char.ofNat n) then some (Char.ofNat n) else none

/-- The number written before a semicolon, in a base, and what follows. -/
def numberReference? (base : Nat) (t : Text) : Option (Piece × Text) := do
  let (digits, after) ← Text.cutFirst? [';'] t
  let n ← Text.numberIn? base digits
  let c ← characterOf? n
  return (.char c, after)

/-- The entities that every document knows. -/
def commonEntities : List (Text × Char) :=
  [("lt", '<'), ("gt", '>'), ("amp", '&'), ("apos", '\''), ("quot", '"')]

/-- A name without a colon. -/
def isName (t : Text) : Bool :=
  t.head?.any isNameStart && t.all isNameChar

/-- The entity named before a semicolon, and what follows. -/
def entityReference? (t : Text) : Option (Piece × Text) := do
  let (name, after) ← Text.cutFirst? [';'] t
  if isName name then
    match commonEntities.lookup name with
    | some c => return (.char c, after)
    | none => return (.entity name, after)
  else
    none

/-- A reference after its ampersand, and what follows. -/
def reference? : Text → Option (Piece × Text)
  | '#' :: 'x' :: t => numberReference? 16 t
  | '#' :: t => numberReference? 10 t
  | t => entityReference? t

theorem length_of_numberReference? {base : Nat} {t after : Text} {p : Piece}
    (h : numberReference? base t = some (p, after)) : after.length < t.length := by
  unfold numberReference? at h
  simp only [Option.bind_eq_bind, Option.bind_eq_some_iff] at h
  obtain ⟨⟨digits, rest⟩, hc, n, -, c, -, h⟩ := h
  simp only [Option.pure_def, Option.some.injEq, Prod.mk.injEq] at h
  have := Text.length_of_cutFirst? hc
  rw [← h.2]
  simp only [List.length_cons, List.length_nil] at this
  omega

theorem length_of_entityReference? {t after : Text} {p : Piece}
    (h : entityReference? t = some (p, after)) : after.length < t.length := by
  unfold entityReference? at h
  simp only [Option.bind_eq_bind, Option.bind_eq_some_iff] at h
  obtain ⟨⟨name, rest⟩, hc, h⟩ := h
  have := Text.length_of_cutFirst? hc
  simp only [List.length_cons, List.length_nil] at this
  split at h
  · split at h <;>
    · simp only [Option.pure_def, Option.some.injEq, Prod.mk.injEq] at h
      rw [← h.2]
      omega
  · cases h

/-- A reference takes up some of the text. -/
theorem length_of_reference? {t after : Text} {p : Piece}
    (h : reference? t = some (p, after)) : after.length < t.length := by
  unfold reference? at h
  split at h
  · have := length_of_numberReference? h
    simp only [List.length_cons]
    omega
  · have := length_of_numberReference? h
    simp only [List.length_cons]
    omega
  · exact length_of_entityReference? h

/-! ## Attribute values -/

/-- A value up to the closing quote, and what follows the quote; without a quote, all of the
text. -/
def value? (quote : Option Char) (t : Text) : Option (List Piece × Text) :=
  match t with
  | [] => if quote.isNone then some ([], []) else none
  | c :: rest =>
    if quote = some c then some ([], rest)
    else if c = '<' then none
    else if c = '&' then
      match _h : reference? rest with
      | none => none
      | some (p, after) => (value? quote after).map fun (ps, after) => (p :: ps, after)
    else if isSpace c then (value? quote rest).map fun (ps, after) => (.char ' ' :: ps, after)
    else if isLegal c then (value? quote rest).map fun (ps, after) => (.char c :: ps, after)
    else none
  termination_by t.length
  decreasing_by
    · have := length_of_reference? _h
      simp only [List.length_cons]
      omega
    all_goals simp

/-- A value takes up no more than the text. -/
theorem length_of_value? {quote : Option Char} {t after : Text} {ps : List Piece}
    (h : value? quote t = some (ps, after)) : after.length ≤ t.length := by
  fun_induction value? quote t generalizing ps after with
  | case1 =>
    simp only [Option.some.injEq, Prod.mk.injEq] at h
    simp [← h.2]
  | case2 => cases h
  | case3 =>
    simp only [Option.some.injEq, Prod.mk.injEq] at h
    simp [← h.2]
  | case4 => cases h
  | case5 => cases h
  | case6 _ _ _ hr _ _ ih =>
    obtain ⟨⟨qs, r⟩, hv, he⟩ := Option.map_eq_some_iff.1 h
    simp only [Prod.mk.injEq] at he
    have h₁ := length_of_reference? hr
    have h₂ := ih hv
    rw [← he.2]
    simp only [List.length_cons]
    omega
  | case7 _ _ _ _ _ _ ih =>
    obtain ⟨⟨qs, r⟩, hv, he⟩ := Option.map_eq_some_iff.1 h
    simp only [Prod.mk.injEq] at he
    have := ih hv
    rw [← he.2]
    simp only [List.length_cons]
    omega
  | case8 _ _ _ _ _ _ _ ih =>
    obtain ⟨⟨qs, r⟩, hv, he⟩ := Option.map_eq_some_iff.1 h
    simp only [Prod.mk.injEq] at he
    have := ih hv
    rw [← he.2]
    simp only [List.length_cons]
    omega
  | case9 => cases h

end MailMerge.Xml
