import MailMerge.Conditional.Inline
import MailMerge.Conditional.Nodes
import MailMerge.Proofs.Conditional.Innermost
import MailMerge.Proofs.Merge.Results
import MailMerge.Proofs.Nesting.Pairing

/-!
# Conditionals over whole nodes, paired up

Sibling nodes are paired up to pieces. Each pair stands for its chosen branch, a closer by itself is
dropped, an opener by itself is an error, and every other node stays, with the lists of siblings
inside it treated in the same way. `outcome` is the list that results, with the events on the way to
it in the order of the document.

**`resolveNodes_eq_run`**: the nodes resolve to that list, as far as the events go well.
-/

namespace MailMerge.Conditional

open Merging (ofFault_ok report_bind)
open Nesting (Piece flatten Balanced Settled Visit keep trace)

/-! ## Nodes as items -/

/-- What a node does to the conditionals around it. -/
def nodeRole (n : Node) : Nesting.Role :=
  ((nodeKind n).map kindRole).getD .plain

/-- The condition of the branch that a node begins. -/
def nodeCondition (n : Node) : Option Text :=
  (nodeMarker? n).bind headCondition

/-- What happens on the way through a document. -/
inductive Event where
  /-- Conditions are evaluated up to the first that holds. -/
  | asked (conditions : List (Option Text))
  /-- A closer has no opener. -/
  | unopened
  /-- An opener has no closer. -/
  | unclosed (condition : Text)
deriving DecidableEq

/-- A result, and what happens on the way to it. -/
structure Outcome (α : Type) where
  result : α
  events : List Event

/-- A node among its siblings, with the outcome of what is inside it. -/
structure Sibling where
  node : Node
  inside : Outcome Node

namespace Sibling

/-- What the node does to the conditionals around it. -/
def role (s : Sibling) : Nesting.Role :=
  nodeRole s.node

/-- The node is no end of a conditional. -/
def stays (s : Sibling) : Bool :=
  s.role ≠ .opens ∧ s.role ≠ .closes

/-- There is no condition at the head of a branch, or it holds. -/
def holds (fields : Condition.Fields) (s : Sibling) : Bool :=
  conditionHolds fields (nodeCondition s.node)

end Sibling

/-- What happens when a sibling stays or branches are to be chosen from. -/
def visitEvents : Visit Sibling → List Event
  | .met s =>
    match s.role with
    | .opens => [.unclosed ((nodeCondition s.node).getD [])]
    | .closes => [.unopened]
    | _ => s.inside.events
  | .asked heads => [.asked (heads.map fun s => nodeCondition s.node)]

/-- The outcome of pieces. -/
def evaluate (fields : Condition.Fields) (ps : List (Piece Sibling)) : Outcome (List Node) where
  result := ((keep Sibling.role (Sibling.holds fields) ps).filter Sibling.stays).map (·.inside.result)
  events := (trace Sibling.role (Sibling.holds fields) ps).flatMap visitEvents

mutual

/-- The outcome of what is inside a node. -/
def inside (fields : Condition.Fields) : Node → Outcome Node
  | .table attributes rows rendered =>
    let o := evaluate fields (Nesting.pairUp Sibling.role (siblings fields rows))
    ⟨.table attributes o.result rendered, o.events⟩
  | .row attributes cells rendered =>
    let o := insideCells fields cells
    ⟨.row attributes o.result rendered, o.events⟩
  | n => ⟨n, []⟩

/-- Nodes with the outcomes of what is inside them. -/
def siblings (fields : Condition.Fields) : List Node → List Sibling
  | [] => []
  | n :: ns => ⟨n, inside fields n⟩ :: siblings fields ns

/-- The outcome of what is inside the cells of a row. -/
def insideCells (fields : Condition.Fields) : List Node → Outcome (List Node)
  | [] => ⟨[], []⟩
  | .cell attributes children rendered :: cells =>
    let o := evaluate fields (Nesting.pairUp Sibling.role (siblings fields children))
    let more := insideCells fields cells
    ⟨.cell attributes o.result rendered :: more.result, o.events ++ more.events⟩
  | n :: cells =>
    let more := insideCells fields cells
    ⟨n :: more.result, more.events⟩

end

/-- The outcome of sibling nodes. -/
def outcome (fields : Condition.Fields) (nodes : List Node) : Outcome (List Node) :=
  evaluate fields (Nesting.pairUp Sibling.role (siblings fields nodes))

/-! ## Running through events -/

section Run

variable {ι : Type} (fields : Condition.Fields)

/-- The merge step that events make up; an opener without a closer ends it. -/
def runEvents : List Event → Merging ι Unit
  | [] => pure ()
  | .asked conditions :: es => do
    let ws ← .ofFault (ask fields conditions)
    Merging.report ws [] ()
    runEvents es
  | .unopened :: es => do
    Merging.warn .unopenedConditional
    runEvents es
  | .unclosed condition :: _ => .fail (.unclosedConditional condition)

/-- The merge step with a given outcome. -/
def Outcome.run {α : Type} (o : Outcome α) : Merging ι α := do
  runEvents fields o.events
  return o.result

variable {fields}

theorem runEvents_append (es es' : List Event) :
    (runEvents fields (es ++ es') : Merging ι Unit) =
      runEvents fields es >>= fun _ => runEvents fields es' := by
  induction es with
  | nil => simp [runEvents]
  | cons e es ih =>
    cases e with
    | asked conditions => simp [runEvents, ih]
    | unopened => simp [runEvents, ih]
    | unclosed condition => simp [runEvents]

end Run

/-! ## The nodes of pieces -/

/-- The nodes of pieces. -/
def nodesOf (ps : List (Piece Sibling)) : List Node :=
  (flatten ps).map (·.node)

@[simp] theorem nodesOf_nil : nodesOf [] = [] := by
  simp [nodesOf]

@[simp] theorem nodesOf_item (s : Sibling) (ps : List (Piece Sibling)) :
    nodesOf (.item s :: ps) = s.node :: nodesOf ps := by
  simp [nodesOf]

@[simp] theorem nodesOf_pair (opener : Sibling) (body : List (Piece Sibling)) (closer : Sibling)
    (ps : List (Piece Sibling)) :
    nodesOf (.pair opener body closer :: ps) =
      opener.node :: (nodesOf body ++ closer.node :: nodesOf ps) := by
  simp [nodesOf]

@[simp] theorem nodesOf_append (ps qs : List (Piece Sibling)) :
    nodesOf (ps ++ qs) = nodesOf ps ++ nodesOf qs := by
  simp [nodesOf]

theorem kindRole_eq_opens {k : Marker.Kind} : kindRole k = .opens ↔ k = .ifStart := by
  cases k <;> decide

theorem kindRole_eq_closes {k : Marker.Kind} : kindRole k = .closes ↔ k = .ifEnd := by
  cases k <;> decide

theorem kindRole_eq_divides {k : Marker.Kind} :
    kindRole k = .divides ↔ k = .elseIf ∨ k = .otherwise := by
  cases k <;> decide

theorem nodeRole_of_nodeMarker? {n : Node} {m : Marker} (h : nodeMarker? n = some m) :
    nodeRole n = kindRole m.kind := by
  simp [nodeRole, nodeKind, h]

theorem exists_nodeMarker? {n : Node} (h : nodeRole n ≠ .plain) : ∃ m, nodeMarker? n = some m := by
  cases hm : nodeMarker? n with
  | none => simp [nodeRole, nodeKind, hm] at h
  | some m => exact ⟨m, rfl⟩

theorem isConditional_of_nodeMarker? {n : Node} {m : Marker} (h : nodeMarker? n = some m) :
    m.kind.isConditional := by
  cases n with
  | paragraph p rendered => exact (Option.filter_eq_some_iff.1 h).2
  | row attributes cells rendered => exact (Option.filter_eq_some_iff.1 h).2
  | _ => simp [nodeMarker?] at h

/-! ## The end of a conditional -/

theorem untilEnd_opens {n : Node} (h : nodeRole n = .opens) (opened : Nat) (ns : List Node) :
    untilEnd opened (n :: ns) =
      (untilEnd (opened + 1) ns).map fun (body, after) => (n :: body, after) := by
  obtain ⟨m, hm⟩ := exists_nodeMarker? (n := n) (by rw [h]; decide)
  rw [nodeRole_of_nodeMarker? hm, kindRole_eq_opens] at h
  simp [untilEnd, nodeKind, hm, h]

theorem untilEnd_closes_zero {n : Node} (h : nodeRole n = .closes) (ns : List Node) :
    untilEnd 0 (n :: ns) = some ([], ns) := by
  obtain ⟨m, hm⟩ := exists_nodeMarker? (n := n) (by rw [h]; decide)
  rw [nodeRole_of_nodeMarker? hm, kindRole_eq_closes] at h
  simp [untilEnd, nodeKind, hm, h]

theorem untilEnd_closes_succ {n : Node} (h : nodeRole n = .closes) (opened : Nat) (ns : List Node) :
    untilEnd (opened + 1) (n :: ns) =
      (untilEnd opened ns).map fun (body, after) => (n :: body, after) := by
  obtain ⟨m, hm⟩ := exists_nodeMarker? (n := n) (by rw [h]; decide)
  rw [nodeRole_of_nodeMarker? hm, kindRole_eq_closes] at h
  simp [untilEnd, nodeKind, hm, h]

theorem untilEnd_inside {n : Node} (ho : nodeRole n ≠ .opens) (hc : nodeRole n ≠ .closes)
    (opened : Nat) (ns : List Node) :
    untilEnd opened (n :: ns) =
      (untilEnd opened ns).map fun (body, after) => (n :: body, after) := by
  cases hm : nodeMarker? n with
  | none => simp [untilEnd, nodeKind, hm]
  | some m =>
    rw [nodeRole_of_nodeMarker? hm] at ho hc
    have ho' : m.kind ≠ .ifStart := fun h => ho (kindRole_eq_opens.2 h)
    have hc' : m.kind ≠ .ifEnd := fun h => hc (kindRole_eq_closes.2 h)
    simp [untilEnd, nodeKind, hm, ho', hc']

/-- What is balanced is passed over. -/
theorem untilEnd_balanced {ps : List (Piece Sibling)} (h : Balanced Sibling.role ps) (opened : Nat)
    (ns : List Node) :
    untilEnd opened (nodesOf ps ++ ns) =
      (untilEnd opened ns).map fun (body, after) => (nodesOf ps ++ body, after) := by
  induction ps using Piece.induction generalizing opened ns with
  | nil => simp
  | item s ps ih =>
    obtain ⟨ho, hc, h⟩ := (Nesting.balanced_item s ps).1 h
    rw [nodesOf_item, List.cons_append, untilEnd_inside ho hc, ih h, Option.map_map]
    rfl
  | pair opener body closer ps ihb ih =>
    obtain ⟨ho, hc, hb, h⟩ := (Nesting.balanced_pair opener body closer ps).1 h
    rw [nodesOf_pair, List.cons_append, List.append_assoc, untilEnd_opens ho, ihb hb,
      List.cons_append, untilEnd_closes_succ hc, ih h]
    simp only [Option.map_map]
    congr 1
    funext r
    simp

/-- A conditional without a closer has no end. -/
theorem untilEnd_settled {ps : List (Piece Sibling)} (h : Settled Sibling.role True ps)
    (opened : Nat) : untilEnd opened (nodesOf ps) = none := by
  induction ps using Piece.induction generalizing opened with
  | nil => simp [untilEnd]
  | item s ps ih =>
    obtain ⟨hc, h⟩ := (Nesting.settled_item True s ps).1 h
    rw [true_or] at h
    rw [nodesOf_item]
    by_cases ho : s.role = .opens
    · rw [untilEnd_opens ho, ih h]
      rfl
    · rw [untilEnd_inside ho (fun hs => hc hs trivial), ih h]
      rfl
  | pair opener body closer ps _ ih =>
    obtain ⟨ho, hc, hb, h⟩ := (Nesting.settled_pair True opener body closer ps).1 h
    rw [nodesOf_pair, untilEnd_opens ho, untilEnd_balanced hb, untilEnd_closes_succ hc, ih h]
    rfl

/-! ## The branches of a conditional -/

/-- The branches with nodes put before the first one's. -/
def keepNodes (nodes : List Node) (bs : List NodeBranch) : List NodeBranch :=
  nodes.foldr divide.keep bs

theorem keepNodes_cons (nodes : List Node) (b : NodeBranch) (bs : List NodeBranch) :
    keepNodes nodes (b :: bs) = { b with nodes := nodes ++ b.nodes } :: bs := by
  induction nodes with
  | nil => rfl
  | cons n nodes ih =>
    show divide.keep n (keepNodes nodes (b :: bs)) = _
    rw [ih]
    rfl

theorem keepNodes_append (nodes nodes' : List Node) (bs : List NodeBranch) :
    keepNodes (nodes ++ nodes') bs = keepNodes nodes (keepNodes nodes' bs) :=
  List.foldr_append

theorem divide_opens {n : Node} (h : nodeRole n = .opens) (condition : Option Text) (opened : Int)
    (ns : List Node) :
    divide condition opened (n :: ns) = divide.keep n (divide condition (opened + 1) ns) := by
  obtain ⟨m, hm⟩ := exists_nodeMarker? (n := n) (by rw [h]; decide)
  rw [nodeRole_of_nodeMarker? hm, kindRole_eq_opens] at h
  simp [divide, hm, h]

theorem divide_closes {n : Node} (h : nodeRole n = .closes) (condition : Option Text)
    (opened : Int) (ns : List Node) :
    divide condition opened (n :: ns) = divide.keep n (divide condition (opened - 1) ns) := by
  obtain ⟨m, hm⟩ := exists_nodeMarker? (n := n) (by rw [h]; decide)
  rw [nodeRole_of_nodeMarker? hm, kindRole_eq_closes] at h
  simp [divide, hm, h]

theorem divide_divides {n : Node} (h : nodeRole n = .divides) (condition : Option Text)
    (ns : List Node) :
    divide condition 0 (n :: ns) = ⟨condition, []⟩ :: divide (nodeCondition n) 0 ns := by
  obtain ⟨m, hm⟩ := exists_nodeMarker? (n := n) (by rw [h]; decide)
  rw [nodeRole_of_nodeMarker? hm, kindRole_eq_divides] at h
  rcases h with h | h <;> simp [divide, hm, h, nodeCondition, headCondition]

theorem divide_inside {n : Node} {opened : Int} (ho : nodeRole n ≠ .opens)
    (hc : nodeRole n ≠ .closes) (hd : nodeRole n = .divides → opened ≠ 0) (condition : Option Text)
    (ns : List Node) :
    divide condition opened (n :: ns) = divide.keep n (divide condition opened ns) := by
  cases hm : nodeMarker? n with
  | none => simp [divide, hm]
  | some m =>
    rw [nodeRole_of_nodeMarker? hm] at ho hc hd
    have hi := (isConditional_iff m.kind).1 (isConditional_of_nodeMarker? hm)
    cases hk : m.kind <;> simp_all [divide, kindRole]

/-- Inside another conditional, what is balanced divides nothing. -/
theorem divide_balanced {ps : List (Piece Sibling)} (h : Balanced Sibling.role ps)
    (condition : Option Text) {opened : Int} (hpos : 0 < opened) (ns : List Node) :
    divide condition opened (nodesOf ps ++ ns) =
      keepNodes (nodesOf ps) (divide condition opened ns) := by
  induction ps using Piece.induction generalizing opened ns with
  | nil => simp [keepNodes]
  | item s ps ih =>
    obtain ⟨ho, hc, h⟩ := (Nesting.balanced_item s ps).1 h
    rw [nodesOf_item, List.cons_append, divide_inside ho hc (fun _ => by omega), ih h hpos]
    rfl
  | pair opener body closer ps ihb ih =>
    obtain ⟨ho, hc, hb, h⟩ := (Nesting.balanced_pair opener body closer ps).1 h
    rw [nodesOf_pair, List.cons_append, List.append_assoc, divide_opens ho,
      ihb hb (by omega), List.cons_append, divide_closes hc, Int.add_sub_cancel, ih h hpos]
    simp [keepNodes]

/-- **The branches of a body are those of its pieces.** -/
theorem divide_eq {ps : List (Piece Sibling)} (h : Balanced Sibling.role ps) (head : Sibling)
    (content : List (Piece Sibling)) :
    keepNodes (nodesOf content) (divide (nodeCondition head.node) 0 (nodesOf ps)) =
      (Nesting.branchesFrom Sibling.role head content ps).map fun b =>
        ⟨nodeCondition b.head.node, nodesOf b.content⟩ := by
  induction ps generalizing head content with
  | nil => simp [divide, keepNodes_cons, Nesting.branchesFrom]
  | cons p ps ih =>
    by_cases hp : Nesting.divides Sibling.role p
    · cases p with
      | pair => cases hp
      | item s =>
        obtain ⟨-, -, h⟩ := (Nesting.balanced_item s ps).1 h
        have hi := ih h s []
        rw [nodesOf_item, divide_divides hp, keepNodes_cons, Nesting.branchesFrom_item hp,
          List.map_cons, ← hi]
        simp [keepNodes]
    · have hcons : divide (nodeCondition head.node) 0 (nodesOf (p :: ps)) =
          keepNodes (nodesOf [p]) (divide (nodeCondition head.node) 0 (nodesOf ps)) := by
        cases p with
        | item s =>
          obtain ⟨ho, hc, -⟩ := (Nesting.balanced_item s ps).1 h
          rw [nodesOf_item, divide_inside ho hc (fun hd => absurd hd hp)]
          simp [keepNodes]
        | pair opener body closer =>
          obtain ⟨ho, hc, hb, -⟩ := (Nesting.balanced_pair opener body closer ps).1 h
          rw [nodesOf_pair, divide_opens ho, divide_balanced hb _ (by omega), divide_closes hc]
          simp [keepNodes]
      have hps : Balanced Sibling.role ps := ((Nesting.balanced_append [p] ps).1 h).2
      rw [hcons, ← keepNodes_append, ← nodesOf_append, ih hps, Nesting.branchesFrom_cons hp]

/-! ## Steps of the evaluation -/

section Steps

variable {ι : Type} {fields : Condition.Fields}

theorem resolveNodes_inside {n : Node} (ho : nodeRole n ≠ .opens) (hc : nodeRole n ≠ .closes)
    (ns : List Node) :
    (resolveNodes fields (n :: ns) : Merging ι (List Node)) = do
      let n ← resolveInside fields n
      return n :: (← resolveNodes fields ns) := by
  cases hm : nodeMarker? n with
  | none => simp [resolveNodes, hm]
  | some m =>
    rw [nodeRole_of_nodeMarker? hm] at ho hc
    rw [resolveNodes, hm]
    cases hk : m.kind <;> simp [hk, kindRole] at ho hc <;> simp [hk]

theorem resolveNodes_closes {n : Node} (h : nodeRole n = .closes) (ns : List Node) :
    (resolveNodes fields (n :: ns) : Merging ι (List Node)) =
      Merging.warn .unopenedConditional >>= fun _ => resolveNodes fields ns := by
  obtain ⟨m, hm⟩ := exists_nodeMarker? (n := n) (by rw [h]; decide)
  rw [nodeRole_of_nodeMarker? hm, kindRole_eq_closes] at h
  simp [resolveNodes, hm, h]

theorem nodeCondition_of_opens {n : Node} {m : Marker} (hm : nodeMarker? n = some m)
    (h : m.kind = .ifStart) : nodeCondition n = some m.argument := by
  simp [nodeCondition, hm, headCondition, h]

theorem resolveNodes_unclosed {n : Node} {ns : List Node} (h : nodeRole n = .opens)
    (he : untilEnd 0 ns = none) :
    (resolveNodes fields (n :: ns) : Merging ι (List Node)) =
      .fail (.unclosedConditional ((nodeCondition n).getD [])) := by
  obtain ⟨m, hm⟩ := exists_nodeMarker? (n := n) (by rw [h]; decide)
  rw [nodeRole_of_nodeMarker? hm, kindRole_eq_opens] at h
  rw [nodeCondition_of_opens hm h, resolveNodes]
  simp only [hm, h]
  split
  · rfl
  · next h' => simp [he] at h'

theorem resolveNodes_opens {n : Node} {ns body after : List Node} (h : nodeRole n = .opens)
    (he : untilEnd 0 ns = some (body, after)) :
    (resolveNodes fields (n :: ns) : Merging ι (List Node)) = do
      let selected ← selectBranch fields (divide (nodeCondition n) 0 body)
      let kept ← selected.elim (pure []) fun b => resolveNodes fields b.val.nodes
      return kept ++ (← resolveNodes fields after) := by
  obtain ⟨m, hm⟩ := exists_nodeMarker? (n := n) (by rw [h]; decide)
  rw [nodeRole_of_nodeMarker? hm, kindRole_eq_opens] at h
  rw [nodeCondition_of_opens hm h, resolveNodes]
  simp only [hm, h]
  split
  · next h' => simp [he] at h'
  · next body' after' h' =>
    obtain ⟨rfl, rfl⟩ : body = body' ∧ after = after' := by simpa [he] using h'
    congr 1
    funext selected
    cases selected <;> rfl

/-- Choosing a branch and going on from it. -/
theorem selectBranch_bind {α : Type} (bs : List NodeBranch) (x : Merging ι α)
    (f : NodeBranch → Merging ι α) :
    (selectBranch fields bs >>= fun selected => selected.elim x fun b => f b.val) =
      (do
        let ws ← .ofFault (ask fields (bs.map (·.condition)))
        Merging.report ws [] ()
        (bs.find? fun b => conditionHolds fields b.condition).elim x f) := by
  have hmap : bs.attach.map (fun b => b.val.condition) = bs.map (·.condition) := by
    simp
  have hfind : (bs.attach.find? fun b => conditionHolds fields b.val.condition).map (·.val) =
      bs.find? fun b => conditionHolds fields b.condition := by
    conv_rhs => rw [← List.attach_map_subtype_val bs, List.find?_map]
    rfl
  rw [selectBranch, selectFirst_eq, hmap, ← hfind]
  cases ask fields (bs.map (·.condition)) with
  | error f => rfl
  | ok ws =>
    simp only [Except.map, ofFault_ok, pure_bind]
    rw [report_bind]
    cases bs.attach.find? fun b => conditionHolds fields b.val.condition <;> rfl

/-! ## Steps of the outcome -/

theorem run_evaluate_nil : (evaluate fields []).run fields = (pure [] : Merging ι (List Node)) := by
  simp [Outcome.run, evaluate, runEvents]

theorem run_evaluate_inside {s : Sibling} (ho : s.role ≠ .opens) (hc : s.role ≠ .closes)
    (ps : List (Piece Sibling)) :
    ((evaluate fields (.item s :: ps)).run fields : Merging ι (List Node)) = do
      let n ← s.inside.run fields
      return n :: (← (evaluate fields ps).run fields) := by
  have hs : s.stays = true := by simp [Sibling.stays, ho, hc]
  have he : visitEvents (.met s) = s.inside.events := by
    cases hr : s.role <;> simp_all [visitEvents]
  simp [Outcome.run, evaluate, hs, he, runEvents_append]

theorem run_evaluate_closes {s : Sibling} (h : s.role = .closes) (ps : List (Piece Sibling)) :
    ((evaluate fields (.item s :: ps)).run fields : Merging ι (List Node)) =
      Merging.warn .unopenedConditional >>= fun _ => (evaluate fields ps).run fields := by
  simp [Outcome.run, evaluate, Sibling.stays, h, visitEvents, runEvents]

theorem run_evaluate_opens {s : Sibling} (h : s.role = .opens) (ps : List (Piece Sibling)) :
    ((evaluate fields (.item s :: ps)).run fields : Merging ι (List Node)) =
      .fail (.unclosedConditional ((nodeCondition s.node).getD [])) := by
  simp [Outcome.run, evaluate, h, visitEvents, runEvents]

theorem run_evaluate_pair (opener : Sibling) (body : List (Piece Sibling)) (closer : Sibling)
    (ps : List (Piece Sibling)) :
    ((evaluate fields (.pair opener body closer :: ps)).run fields : Merging ι (List Node)) = do
      let ws ← .ofFault (ask fields ((Nesting.branches Sibling.role opener body).map
        fun b => nodeCondition b.head.node))
      Merging.report ws [] ()
      let kept ← (evaluate fields (Nesting.chosen Sibling.role (Sibling.holds fields) opener body)).run fields
      return kept ++ (← (evaluate fields ps).run fields) := by
  simp [Outcome.run, evaluate, visitEvents, runEvents, runEvents_append, Function.comp_def]

end Steps

/-- **Pieces resolve to their outcome**, if what is inside their nodes does. -/
theorem resolveNodes_nodesOf {ι : Type} (fields : Condition.Fields) {ps : List (Piece Sibling)}
    (hs : Settled Sibling.role False ps)
    (hf : ∀ s ∈ flatten ps,
      (resolveInside fields s.node : Merging ι Node) = s.inside.run fields) :
    (resolveNodes fields (nodesOf ps) : Merging ι (List Node)) = (evaluate fields ps).run fields := by
  fun_induction keep Sibling.role (Sibling.holds fields) ps with
  | case1 => rw [run_evaluate_nil, nodesOf_nil, resolveNodes]
  | case2 s ps ih =>
    obtain ⟨-, hs⟩ := (Nesting.settled_item False s ps).1 hs
    rw [false_or] at hs
    rw [Nesting.flatten_item] at hf
    have hrest : ∀ s ∈ flatten ps, _ := fun s' h => hf s' (List.mem_cons_of_mem s h)
    rw [nodesOf_item]
    by_cases ho : s.role = .opens
    · have he : untilEnd 0 (nodesOf ps) = none := untilEnd_settled (by simpa [ho] using hs) 0
      rw [resolveNodes_unclosed ho he, run_evaluate_opens ho]
    · have hs' : Settled Sibling.role False ps := by simpa [ho] using hs
      by_cases hc : s.role = .closes
      · rw [resolveNodes_closes hc, run_evaluate_closes hc, ih hs' hrest]
      · rw [resolveNodes_inside ho hc, run_evaluate_inside ho hc, ih hs' hrest,
          hf s List.mem_cons_self]
  | case3 opener body closer ps ihc ih =>
    obtain ⟨ho, hc, hb, hs⟩ := (Nesting.settled_pair False opener body closer ps).1 hs
    rw [Nesting.flatten_pair] at hf
    have he : untilEnd 0 (nodesOf body ++ closer.node :: nodesOf ps) =
        some (nodesOf body, nodesOf ps) := by
      rw [untilEnd_balanced hb, untilEnd_closes_zero hc]
      simp
    have hd : divide (nodeCondition opener.node) 0 (nodesOf body) =
        (Nesting.branches Sibling.role opener body).map fun b =>
          ⟨nodeCondition b.head.node, nodesOf b.content⟩ := by
      simpa [keepNodes, Nesting.branches] using divide_eq hb opener []
    have hpart : ∀ s ∈ flatten (Nesting.chosen Sibling.role (Sibling.holds fields) opener body),
        s ∈ flatten body := by
      obtain ⟨before, after, hp⟩ := Nesting.chosen_part Sibling.role (Sibling.holds fields) opener body
      intro s h
      rw [hp]
      simp [h]
    have hchosen := ihc
      ((hb.chosen (Sibling.holds fields) opener).settled False) fun s h => hf s (by simp [hpart s h])
    have hrest := ih hs fun s h => hf s (by simp [h])
    have hselected : ((divide (nodeCondition opener.node) 0 (nodesOf body)).find? fun b =>
        conditionHolds fields b.condition).elim (pure []) (fun b => resolveNodes fields b.nodes) =
        ((evaluate fields (Nesting.chosen Sibling.role (Sibling.holds fields) opener body)).run
          fields : Merging ι (List Node)) := by
      rw [← hchosen, hd, List.find?_map, Nesting.chosen]
      show Option.elim (Option.map _ ((Nesting.branches Sibling.role opener body).find? fun b =>
        b.head.holds fields)) _ _ = _
      cases (Nesting.branches Sibling.role opener body).find? fun b => b.head.holds fields with
      | none => rw [Option.elim_none, nodesOf_nil, resolveNodes]; rfl
      | some b => rfl
    rw [nodesOf_pair, resolveNodes_opens ho he, ← bind_assoc,
      selectBranch_bind _ (pure []) fun b => resolveNodes fields b.nodes, hselected, hd,
      run_evaluate_pair, hrest]
    simp only [bind_assoc, List.map_map, Function.comp_def]

/-! ## All nodes -/

section Nodes

variable {ι : Type} (fields : Condition.Fields)

theorem map_node_siblings (ns : List Node) : (siblings fields ns).map (·.node) = ns := by
  induction ns with
  | nil => rw [siblings]; rfl
  | cons n ns ih => rw [siblings, List.map_cons, ih]

/-- Siblings resolve to their outcome, if what is inside them does. -/
theorem resolveNodes_of_siblings {ns : List Node}
    (h : ∀ s ∈ siblings fields ns,
      (resolveInside fields s.node : Merging ι Node) = s.inside.run fields) :
    (resolveNodes fields ns : Merging ι (List Node)) = (outcome fields ns).run fields := by
  have hf := Nesting.flatten_pairUp Sibling.role (siblings fields ns)
  have hn : nodesOf (Nesting.pairUp Sibling.role (siblings fields ns)) = ns := by
    rw [nodesOf, hf, map_node_siblings]
  have hr := resolveNodes_nodesOf (ι := ι) fields
    (Nesting.settled_pairUp Sibling.role (siblings fields ns)) (by rwa [hf])
  rwa [hn] at hr

mutual

/-- What is inside a node resolves to its outcome. -/
theorem resolveInside_eq_run :
    ∀ n : Node, (resolveInside fields n : Merging ι Node) = (inside fields n).run fields
  | .table attributes rows rendered => by
    have h := resolveNodes_of_siblings (ι := ι) fields (siblings_eq_run rows)
    rw [resolveInside, h, inside]
    simp [Outcome.run, outcome]
  | .row attributes cells rendered => by
    rw [resolveInside, resolveCells_eq_run cells, inside]
    simp [Outcome.run]
  | .paragraph .. | .cell .. | .pageBreak .. | .verbatim .. => by
    simp [resolveInside, inside, Outcome.run, runEvents]

theorem siblings_eq_run :
    ∀ ns : List Node, ∀ s ∈ siblings fields ns,
      (resolveInside fields s.node : Merging ι Node) = s.inside.run fields
  | [], s, h => by simp [siblings] at h
  | n :: ns, s, h => by
    rw [siblings] at h
    rcases List.mem_cons.1 h with rfl | h
    · exact resolveInside_eq_run n
    · exact siblings_eq_run ns s h

theorem resolveCells_eq_run :
    ∀ cells : List Node,
      (resolveCells fields cells : Merging ι (List Node)) = (insideCells fields cells).run fields
  | [] => by simp [resolveCells, insideCells, Outcome.run, runEvents]
  | .cell attributes children rendered :: cells => by
    have h := resolveNodes_of_siblings (ι := ι) fields (siblings_eq_run children)
    rw [resolveCells, h, resolveCells_eq_run cells, insideCells]
    simp [Outcome.run, outcome, runEvents_append]
  | .paragraph .. :: cells | .table .. :: cells | .row .. :: cells | .pageBreak .. :: cells
  | .verbatim .. :: cells => by
    rw [resolveCells, resolveCells_eq_run cells, insideCells]
    · simp [Outcome.run]
    all_goals simp

end

/-- **Nodes resolve to their outcome.** -/
theorem resolveNodes_eq_run (ns : List Node) :
    (resolveNodes fields ns : Merging ι (List Node)) = (outcome fields ns).run fields :=
  resolveNodes_of_siblings fields (siblings_eq_run fields ns)

end Nodes

end MailMerge.Conditional
