import MailMerge.Xml.Token

/-!
# Entities

An entity has a replacement text, which is read in place of a reference to the entity. While it is
read the entity is closed: a reference to it inside its own text has no meaning.
-/

namespace MailMerge.Xml

/-- Entities with their replacement texts. An entity without one is kept outside the document, or
its text is just being read. -/
abbrev Entities := List (Text × Option Text)

namespace Entities

/-- The entities without the text of the given one. -/
def close (name : Text) (entities : Entities) : Entities :=
  entities.map fun e => if e.1 = name then (e.1, none) else e

/-- How many entities have a text. -/
def openCount (entities : Entities) : Nat :=
  entities.countP fun e => e.2.isSome

theorem openCount_close_le (name : Text) (entities : Entities) :
    (entities.close name).openCount ≤ entities.openCount := by
  induction entities with
  | nil => simp [close, openCount]
  | cons e es ih =>
    unfold close openCount at ih ⊢
    simp only [List.map_cons, List.countP_cons]
    by_cases h : e.1 = name
    · simp only [h, if_true, Option.isSome_none, Bool.false_eq_true, if_false]
      omega
    · simp only [h, if_false]
      omega

theorem openCount_close_lt {name t : Text} {entities : Entities}
    (h : entities.lookup name = some (some t)) :
    (entities.close name).openCount < entities.openCount := by
  induction entities with
  | nil => simp at h
  | cons e es ih =>
    obtain ⟨n, body⟩ := e
    rw [List.lookup_cons] at h
    have hle := openCount_close_le name es
    unfold close openCount at ih hle ⊢
    simp only [List.map_cons, List.countP_cons]
    by_cases hn : n = name
    · subst hn
      simp only [BEq.rfl, Option.some.injEq] at h
      simp only [h, if_true, Option.isSome_none, Option.isSome_some, Bool.false_eq_true, if_false]
      omega
    · have hne : (name == n) = false := by
        rw [beq_eq_false_iff_ne]
        exact fun heq => hn heq.symm
      rw [hne] at h
      have := ih h
      simp only [hn, if_false]
      omega

end Entities

/-- The text that pieces make. An entity that is not known is left out where that is allowed. -/
def expandPieces (lenient : Bool) (entities : Entities) (ps : List Piece) : Option Text :=
  match ps with
  | [] => some []
  | .char c :: ps => (expandPieces lenient entities ps).map (c :: ·)
  | .entity name :: ps =>
    match _h : entities.lookup name with
    | none => if lenient then expandPieces lenient entities ps else none
    | some none => none
    | some (some t) =>
      match value? none t with
      | none => none
      | some (inner, _) =>
        match expandPieces lenient (entities.close name) inner with
        | none => none
        | some inner => (expandPieces lenient entities ps).map (inner ++ ·)
  termination_by (entities.openCount, ps.length)
  decreasing_by
    · exact Prod.Lex.right _ (Nat.lt_succ_self _)
    · exact Prod.Lex.right _ (Nat.lt_succ_self _)
    · exact Prod.Lex.left _ _ (Entities.openCount_close_lt _h)
    · exact Prod.Lex.right _ (Nat.lt_succ_self _)

end MailMerge.Xml
