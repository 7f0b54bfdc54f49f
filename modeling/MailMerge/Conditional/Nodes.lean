import MailMerge.Conditional.Branch
import MailMerge.Context
import MailMerge.Marker.Scan
import MailMerge.Merge.Log
import MailMerge.Tree.Path

/-!
# Conditionals over whole nodes

A paragraph or row whose text is nothing but a conditional marker delimits a conditional of whole
nodes: of the nodes between `IF` and `/IF`, whatever they are, the selected branch stays and the
rest is dropped with the markers. Every list of siblings is processed by itself, and so are, after
that, the lists inside the nodes that are kept.
-/

namespace MailMerge.Conditional

/-- The conditional marker that fills a paragraph or row. -/
def nodeMarker? : Node → Option Marker
  | .paragraph p _ => (Marker.lone? p.text).filter fun m => m.kind.isConditional
  | .row attributes cells _ =>
    (Marker.lone? (Node.row attributes cells).text).filter fun m => m.kind.isConditional
  | _ => none

/-- The kind of the conditional marker that fills a node. -/
def nodeKind (n : Node) : Option Marker.Kind :=
  (nodeMarker? n).map (·.kind)

/-- The nodes up to the `/IF` that ends the current conditional, and the nodes after it. Further
conditionals that are open have to end before. -/
def untilEnd (opened : Nat) : List Node → Option (List Node × List Node)
  | [] => none
  | n :: ns =>
    match nodeKind n with
    | some .ifStart => (untilEnd (opened + 1) ns).map fun (body, after) => (n :: body, after)
    | some .ifEnd =>
      match opened with
      | 0 => some ([], ns)
      | opened + 1 => (untilEnd opened ns).map fun (body, after) => (n :: body, after)
    | _ => (untilEnd opened ns).map fun (body, after) => (n :: body, after)

/-- A branch of a conditional of whole nodes; without a condition it is the `ELSE` branch. -/
structure NodeBranch where
  condition : Option Text
  nodes : List Node

/-- The branches of a conditional of which the first has the given condition. Markers inside
other conditionals, of which some are open, divide nothing. -/
def divide (condition : Option Text) (opened : Int) : List Node → List NodeBranch
  | [] => [⟨condition, []⟩]
  | n :: ns =>
    match nodeMarker? n with
    | none => keep n (divide condition opened ns)
    | some m =>
      match m.kind with
      | .ifStart => keep n (divide condition (opened + 1) ns)
      | .ifEnd => keep n (divide condition (opened - 1) ns)
      | kind =>
        if opened = 0 then
          ⟨condition, []⟩ :: divide (if kind = .elseIf then some m.argument else none) opened ns
        else
          keep n (divide condition opened ns)
where
  /-- The branches with a node put before the first one's. -/
  keep (n : Node) : List NodeBranch → List NodeBranch
    | [] => []
    | b :: rest => { b with nodes := n :: b.nodes } :: rest

/-! ## Sizes -/

theorem size_of_untilEnd {opened : Nat} {nodes body after : List Node}
    (h : untilEnd opened nodes = some (body, after)) :
    sizeOf body ≤ sizeOf nodes ∧ sizeOf after ≤ sizeOf nodes := by
  induction nodes generalizing opened body with
  | nil => simp [untilEnd] at h
  | cons n ns ih =>
    have step : ∀ {k b}, untilEnd k ns = some (b, after) →
        sizeOf (n :: b) ≤ sizeOf (n :: ns) ∧ sizeOf after ≤ sizeOf (n :: ns) := by
      intro k b hb
      have := ih hb
      simp only [List.cons.sizeOf_spec]
      omega
    unfold untilEnd at h
    split at h
    · obtain ⟨⟨b, a⟩, hb, he⟩ := Option.map_eq_some_iff.1 h
      simp only [Prod.mk.injEq] at he
      obtain ⟨rfl, rfl⟩ := he
      exact step hb
    · split at h
      · simp only [Option.some.injEq, Prod.mk.injEq] at h
        obtain ⟨rfl, rfl⟩ := h
        simp only [List.cons.sizeOf_spec, List.nil.sizeOf_spec]
        omega
      · obtain ⟨⟨b, a⟩, hb, he⟩ := Option.map_eq_some_iff.1 h
        simp only [Prod.mk.injEq] at he
        obtain ⟨rfl, rfl⟩ := he
        exact step hb
    · obtain ⟨⟨b, a⟩, hb, he⟩ := Option.map_eq_some_iff.1 h
      simp only [Prod.mk.injEq] at he
      obtain ⟨rfl, rfl⟩ := he
      exact step hb

theorem size_of_mem_divide {condition : Option Text} {opened : Int} {nodes : List Node}
    {b : NodeBranch} (h : b ∈ divide condition opened nodes) : sizeOf b.nodes ≤ sizeOf nodes := by
  induction nodes generalizing condition opened b with
  | nil =>
    simp only [divide, List.mem_singleton] at h
    exact Nat.le_of_eq (congrArg (fun b : NodeBranch => sizeOf b.nodes) h)
  | cons n ns ih =>
    have keep : ∀ {c o}, b ∈ divide.keep n (divide c o ns) →
        sizeOf b.nodes ≤ sizeOf (n :: ns) := by
      intro c o hb
      cases hd : divide c o ns with
      | nil => simp [hd, divide.keep] at hb
      | cons x xs =>
        rw [hd] at hb
        rcases List.mem_cons.1 hb with rfl | hb
        · have := @ih c o x (by simp [hd])
          simp only [List.cons.sizeOf_spec]
          omega
        · have := @ih c o b (by simp [hd, hb])
          simp only [List.cons.sizeOf_spec]
          omega
    unfold divide at h
    split at h
    · exact keep h
    · split at h
      · exact keep h
      · exact keep h
      · split at h
        · rcases List.mem_cons.1 h with rfl | h
          · simp only [List.cons.sizeOf_spec, List.nil.sizeOf_spec]
            omega
          · have := ih h
            simp only [List.cons.sizeOf_spec]
            omega
        · exact keep h

/-! ## Resolving -/

/-- The branch that is selected, known to be one of the given ones. -/
def selectBranch {ι : Type} (fields : Condition.Fields) (bs : List NodeBranch) :
    Merging ι (Option { b // b ∈ bs }) := do
  let (selected, warnings) ← .ofFault (selectFirst fields (·.val.condition) bs.attach)
  .report warnings [] selected

mutual

/-- Sibling nodes with their conditionals resolved, in them and beneath them. -/
def resolveNodes {ι : Type} (fields : Condition.Fields) : List Node → Merging ι (List Node)
  | [] => pure []
  | n :: ns => do
    match nodeMarker? n with
    | some m =>
      match m.kind with
      | .ifStart =>
        match _h : untilEnd 0 ns with
        | none => .fail (.unclosedConditional m.argument)
        | some (body, after) =>
          let kept ←
            match ← selectBranch fields (divide (some m.argument) 0 body) with
            | none => pure []
            | some ⟨b, _hb⟩ => resolveNodes fields b.nodes
          return kept ++ (← resolveNodes fields after)
      | .ifEnd =>
        Merging.warn .unopenedConditional
        resolveNodes fields ns
      | _ => return (← resolveInside fields n) :: (← resolveNodes fields ns)
    | none => return (← resolveInside fields n) :: (← resolveNodes fields ns)
  termination_by nodes => sizeOf nodes
  decreasing_by
    · have := (size_of_untilEnd _h).2
      simp only [List.cons.sizeOf_spec]
      omega
    · have h₁ := (size_of_untilEnd _h).1
      have h₂ := size_of_mem_divide _hb
      simp only [List.cons.sizeOf_spec]
      omega
    all_goals simp only [List.cons.sizeOf_spec]; omega

/-- A node with the conditionals inside it resolved. -/
def resolveInside {ι : Type} (fields : Condition.Fields) : Node → Merging ι Node
  | .table attributes rows rendered => return .table attributes (← resolveNodes fields rows) rendered
  | .row attributes cells rendered => return .row attributes (← resolveCells fields cells) rendered
  | n => pure n
  termination_by n => sizeOf n

/-- The cells of a row with the conditionals inside them resolved. -/
def resolveCells {ι : Type} (fields : Condition.Fields) : List Node → Merging ι (List Node)
  | [] => pure []
  | .cell attributes children rendered :: cells =>
    return .cell attributes (← resolveNodes fields children) rendered
      :: (← resolveCells fields cells)
  | n :: cells => return n :: (← resolveCells fields cells)
  termination_by cells => sizeOf cells

end

end MailMerge.Conditional
