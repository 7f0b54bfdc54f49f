import MailMerge.Merge.Basic
import MailMerge.Proofs.Conditional.Kept
import MailMerge.Proofs.Conditional.Spans

/-!
# Branches that are not selected

What stands in a branch that is not selected has no influence on a merge, whatever it is: sections
without data, fields without values, conditionals that are malformed or not complete inside a table.
The branch may be one of any conditional of whole nodes, among blocks or among rows, at any depth.

**`Interchangeable.resolveNodes_eq`**: siblings that differ in such branches resolve to the same.

**`merge_offBranch`**: a merge has the same outcome, whatever stands in the branch.
-/

namespace MailMerge.Conditional

open Node (Level linesOf)

variable {ι : Type} {fields : Condition.Fields}

/-! ## Siblings that resolve to the same -/

/-- Sibling nodes that differ in branches that are not selected, or inside nodes that resolve to the
same. -/
inductive Interchangeable (ι : Type) (fields : Condition.Fields) : List Node → List Node → Prop
  | nil : Interchangeable ι fields [] []
  | node {n m : Node} {ns ms : List Node} (marker : nodeMarker? n = nodeMarker? m)
      (inside : (resolveInside fields n : Merging ι Node) = resolveInside fields m)
      (rest : Interchangeable ι fields ns ms) : Interchangeable ι fields (n :: ns) (m :: ms)
  | span (s : NodeSpan) {i : Nat} (unselected : s.selected? fields ≠ .ok (some i))
      {new ns ms : List Node} (enclosed : isEnclosed 0 new)
      (rest : Interchangeable ι fields ns ms) :
      Interchangeable ι fields (s.nodes ++ ns) ((s.withBranch i new enclosed).nodes ++ ms)

namespace Interchangeable

variable {ns ms : List Node}

theorem refl (ns : List Node) : Interchangeable ι fields ns ns := by
  induction ns with
  | nil => exact .nil
  | cons n ns ih => exact .node rfl rfl ih

theorem append_left (before : List Node) (h : Interchangeable ι fields ns ms) :
    Interchangeable ι fields (before ++ ns) (before ++ ms) := by
  induction before with
  | nil => exact h
  | cons n before ih => exact .node rfl rfl ih

/-- Branches with the same condition, whose nodes are interchangeable. -/
def Branches (ι : Type) (fields : Condition.Fields) : List NodeBranch → List NodeBranch → Prop :=
  List.Forall₂ fun b b' => b.condition = b'.condition ∧ Interchangeable ι fields b.nodes b'.nodes

theorem Branches.keepNodes {bs bs' : List NodeBranch} {xs ys : List Node}
    (hp : ∀ {ns ms}, Interchangeable ι fields ns ms → Interchangeable ι fields (xs ++ ns) (ys ++ ms))
    (h : Branches ι fields bs bs') : Branches ι fields (keepNodes xs bs) (keepNodes ys bs') := by
  cases h with
  | nil =>
    have hnil : ∀ zs, Conditional.keepNodes zs [] = [] := by
      intro zs
      induction zs with
      | nil => rfl
      | cons z zs ih => exact congrArg (divide.keep z) ih
    rw [hnil, hnil]
    exact .nil
  | cons hb hbs =>
    rw [keepNodes_cons, keepNodes_cons]
    exact .cons ⟨hb.1, hp hb.2⟩ hbs

/-- The bodies are divided into interchangeable branches, and what comes after them is
interchangeable. -/
def Ends (ι : Type) (fields : Condition.Fields) (opened : Nat) (x y : List Node × List Node) : Prop :=
  (∀ condition, Branches ι fields (divide condition opened x.1) (divide condition opened y.1)) ∧
    Interchangeable ι fields x.2 y.2

/-- **Interchangeable siblings have the same ends and branches.** -/
theorem untilEnd_rel (h : Interchangeable ι fields ns ms) (opened : Nat) :
    Option.Rel (Ends ι fields opened) (untilEnd opened ns) (untilEnd opened ms) := by
  have hmap : ∀ {k l : Nat} (xs ys : List Node) {x y : Option (List Node × List Node)},
      (∀ b b', Ends ι fields k b b' →
        ∀ condition, Branches ι fields (divide condition l (xs ++ b.1)) (divide condition l (ys ++ b'.1))) →
      Option.Rel (Ends ι fields k) x y →
      Option.Rel (Ends ι fields l) (x.map fun p => (xs ++ p.1, p.2))
        (y.map fun p => (ys ++ p.1, p.2)) := by
    rintro k l xs ys x y hd (⟨he⟩ | _)
    · exact .some ⟨hd _ _ he, he.2⟩
    · exact .none
  induction h generalizing opened with
  | nil => exact .none
  | @node n m ns ms marker inside rest ih =>
    have hrole : nodeRole m = nodeRole n := by rw [nodeRole, nodeRole, nodeKind, nodeKind, marker]
    have hcons : ∀ {ns ms}, Interchangeable ι fields ns ms →
        Interchangeable ι fields ([n] ++ ns) ([m] ++ ms) := fun h => .node marker inside h
    cases hr : nodeRole n with
    | opens =>
      rw [untilEnd_opens hr, untilEnd_opens (hrole.trans hr)]
      refine hmap [n] [m] ?_ (ih (opened + 1))
      intro b b' he condition
      rw [List.singleton_append, List.singleton_append, divide_opens hr,
        divide_opens (hrole.trans hr)]
      exact (he.1 condition).keepNodes hcons
    | closes =>
      cases opened with
      | zero =>
        rw [untilEnd_closes_zero hr, untilEnd_closes_zero (hrole.trans hr)]
        exact .some ⟨fun condition => .cons ⟨rfl, .nil⟩ .nil, rest⟩
      | succ opened =>
        rw [untilEnd_closes_succ hr, untilEnd_closes_succ (hrole.trans hr)]
        refine hmap [n] [m] ?_ (ih opened)
        intro b b' he condition
        rw [List.singleton_append, List.singleton_append, divide_closes hr,
          divide_closes (hrole.trans hr), Int.natCast_succ, Int.add_sub_cancel]
        exact (he.1 condition).keepNodes hcons
    | divides =>
      rw [untilEnd_inside (by simp [hr]) (by simp [hr]),
        untilEnd_inside (by simp [hrole, hr]) (by simp [hrole, hr])]
      refine hmap [n] [m] ?_ (ih opened)
      intro b b' he condition
      rw [List.singleton_append, List.singleton_append]
      by_cases hz : opened = 0
      · subst hz
        have hcondition : nodeCondition m = nodeCondition n := by rw [nodeCondition, nodeCondition, marker]
        rw [Int.ofNat_zero, divide_divides hr, divide_divides (hrole.trans hr), hcondition]
        exact .cons ⟨rfl, .nil⟩ (he.1 _)
      · rw [divide_inside (by simp [hr]) (by simp [hr]) (fun _ => by omega),
          divide_inside (by simp [hrole, hr]) (by simp [hrole, hr]) (fun _ => by omega)]
        exact (he.1 condition).keepNodes hcons
    | plain =>
      rw [untilEnd_inside (by simp [hr]) (by simp [hr]),
        untilEnd_inside (by simp [hrole, hr]) (by simp [hrole, hr])]
      refine hmap [n] [m] ?_ (ih opened)
      intro b b' he condition
      rw [List.singleton_append, List.singleton_append,
        divide_inside (by simp [hr]) (by simp [hr]) (by simp [hr]),
        divide_inside (by simp [hrole, hr]) (by simp [hrole, hr]) (by simp [hrole, hr])]
      exact (he.1 condition).keepNodes hcons
  | span s unselected enclosed rest ih =>
    rw [NodeSpan.untilEnd_nodes, NodeSpan.untilEnd_nodes]
    refine hmap _ _ ?_ (ih opened)
    intro b b' he condition
    rw [NodeSpan.divide_nodes, NodeSpan.divide_nodes]
    exact (he.1 condition).keepNodes fun h => .span s unselected enclosed h

/-- The branches with the same condition are found, and one goes on from them in the same way. -/
theorem Branches.elim_find? {α : Type} {bs bs' : List NodeBranch} (h : Branches ι fields bs bs')
    (p : Option Text → Bool) {x : α} {f : NodeBranch → α}
    (hf : ∀ b ∈ bs, ∀ b', Interchangeable ι fields b.nodes b'.nodes → f b = f b') :
    (bs.find? fun b => p b.condition).elim x f = (bs'.find? fun b => p b.condition).elim x f := by
  induction h with
  | nil => rfl
  | @cons b b' bs bs' hb _ ih =>
    rw [List.find?_cons, List.find?_cons, hb.1]
    cases p b'.condition with
    | true => exact hf b List.mem_cons_self b' hb.2
    | false => exact ih fun x hx => hf x (List.mem_cons_of_mem b hx)

theorem Branches.conditions {bs bs' : List NodeBranch} (h : Branches ι fields bs bs') :
    bs.map (·.condition) = bs'.map (·.condition) := by
  induction h with
  | nil => rfl
  | cons hb _ ih => rw [List.map_cons, List.map_cons, hb.1, ih]

/-- **Interchangeable siblings resolve to the same.** -/
theorem resolveNodes_eq (h : Interchangeable ι fields ns ms) :
    (resolveNodes fields ns : Merging ι (List Node)) = resolveNodes fields ms := by
  induction hsize : sizeOf ns using Nat.strong_induction_on generalizing ns ms with
  | _ size ih =>
    subst hsize
    cases h with
    | nil => rfl
    | @node n m ns ms marker inside rest =>
      have hrole : nodeRole m = nodeRole n := by rw [nodeRole, nodeRole, nodeKind, nodeKind, marker]
      have hcondition : nodeCondition m = nodeCondition n := by rw [nodeCondition, nodeCondition, marker]
      have hrest := ih (sizeOf ns) (by simp only [List.cons.sizeOf_spec]; omega) rest rfl
      by_cases ho : nodeRole n = .opens
      · have hrel := rest.untilEnd_rel 0
        cases he : untilEnd 0 ns with
        | none =>
          rw [he] at hrel
          cases he' : untilEnd 0 ms with
          | none =>
            rw [resolveNodes_unclosed ho he, resolveNodes_unclosed (hrole.trans ho) he', hcondition]
          | some x => rw [he'] at hrel; cases hrel
        | some x =>
          obtain ⟨body, after⟩ := x
          rw [he] at hrel
          cases he' : untilEnd 0 ms with
          | none => rw [he'] at hrel; cases hrel
          | some y =>
            obtain ⟨body', after'⟩ := y
            rw [he'] at hrel
            cases hrel with
            | some hends =>
              obtain ⟨hbody, hafter⟩ := size_of_untilEnd he
              have hbranches : Branches ι fields (divide (nodeCondition n) 0 body)
                  (divide (nodeCondition n) 0 body') := hends.1 (nodeCondition n)
              have hkept := hbranches.elim_find? (conditionHolds fields) (x := pure [])
                (f := fun b => (resolveNodes fields b.nodes : Merging ι (List Node))) fun b hb b' hi => by
                  have hb : sizeOf b.nodes ≤ sizeOf body := size_of_mem_divide hb
                  exact ih _ (by simp only [List.cons.sizeOf_spec]; omega) hi rfl
              have hlater : (resolveNodes fields after : Merging ι (List Node)) =
                  resolveNodes fields after' :=
                ih (sizeOf after) (by simp only [List.cons.sizeOf_spec]; omega) hends.2 rfl
              rw [resolveNodes_opens ho he, resolveNodes_opens (hrole.trans ho) he', ← bind_assoc,
                ← bind_assoc, selectBranch_bind _ (pure []) fun b => resolveNodes fields b.nodes,
                selectBranch_bind _ (pure []) fun b => resolveNodes fields b.nodes, hcondition,
                ← hbranches.conditions, ← hkept, hlater]
      · by_cases hc : nodeRole n = .closes
        · rw [resolveNodes_closes hc, resolveNodes_closes (hrole.trans hc), hrest]
        · rw [resolveNodes_inside ho hc, resolveNodes_inside (hrole ▸ ho) (hrole ▸ hc), inside, hrest]
    | @span s i unselected new ns ms enclosed rest =>
      have hlt : sizeOf ns < sizeOf (s.nodes ++ ns) := by
        have hdrop := Section.sizeOf_drop_le (s.body ++ [s.closer]).length (s.body ++ [s.closer] ++ ns)
        rw [List.drop_left] at hdrop
        rw [NodeSpan.nodes, List.cons_append]
        simp only [List.cons.sizeOf_spec]
        omega
      exact resolveNodes_withBranch s unselected enclosed (ih _ hlt rest rfl)

end Interchangeable

/-! ## At any depth -/

namespace NodeSpan

/-- The conditional stands among blocks or among rows. Among blocks its markers are paragraphs. -/
def StandsAt (s : NodeSpan) : Level → Prop
  | .blocks => s.first.head.isParagraph ∧ s.closer.isParagraph
  | .rows => True
  | .cells => False

end NodeSpan

/-- The nodes at a level are the same, but for the nodes in a branch that is not selected. The branch
is one of a conditional that stands anywhere in them. -/
inductive OffBranch (fields : Condition.Fields) : Level → List Node → List Node → Prop
  | span {level : Level} (before after : List Node) {s : NodeSpan} (stands : s.StandsAt level)
      {i : Nat} (unselected : s.selected? fields ≠ .ok (some i)) {new : List Node}
      (enclosed : isEnclosed 0 new) :
      OffBranch fields level (before ++ s.nodes ++ after)
        (before ++ (s.withBranch i new enclosed).nodes ++ after)
  | table (before after : List Node) (attributes : Text) (rendered : Bool) {rows rows' : List Node}
      (inside : OffBranch fields .rows rows rows') :
      OffBranch fields .blocks (before ++ .table attributes rows rendered :: after)
        (before ++ .table attributes rows' rendered :: after)
  | row (before after : List Node) (attributes : Text) (rendered : Bool) {cells cells' : List Node}
      (inside : OffBranch fields .cells cells cells') :
      OffBranch fields .rows (before ++ .row attributes cells rendered :: after)
        (before ++ .row attributes cells' rendered :: after)
  | cell (before after : List Node) (attributes : Text) (rendered : Bool)
      {children children' : List Node} (inside : OffBranch fields .blocks children children') :
      OffBranch fields .cells (before ++ .cell attributes children rendered :: after)
        (before ++ .cell attributes children' rendered :: after)

namespace OffBranch

variable {level : Level} {ns ms : List Node}

/-! ### Rows around a branch -/

theorem exists_closing {p : Paragraph} {rendered : Bool}
    (h : nodeRole (.paragraph p rendered) ≠ .plain) : ∃ a b, p.text = a ++ Marker.closing ++ b := by
  obtain ⟨m, hm⟩ := exists_nodeMarker? h
  obtain ⟨inner, -, htrim, -⟩ := Marker.trim_of_lone? (Option.filter_eq_some_iff.1 hm).1
  obtain ⟨a, b, ht, -, -⟩ := Text.exists_trim p.text
  rw [htrim] at ht
  exact ⟨a ++ Marker.opening ++ inner, b, by rw [ht, Marker.enclose]; simp⟩

/-- The lines hold two closing braces, so no row around them is a marker. -/
def Busy (ns : List Node) : Prop :=
  ∃ a b c, Text.unlines (linesOf ns) = a ++ Marker.closing ++ b ++ Marker.closing ++ c

/-- A conditional among blocks has its two ends in the lines. -/
theorem busy_span {s : NodeSpan} (h : s.StandsAt .blocks) (before after : List Node) :
    Busy (before ++ s.nodes ++ after) := by
  obtain ⟨hopen, hclose⟩ := h
  cases ho : s.first.head with
  | paragraph p rendered =>
    cases hc : s.closer with
    | paragraph q rendered' =>
      have hp : nodeRole (.paragraph p rendered) ≠ .plain := by rw [← ho, s.opens]; decide
      have hq : nodeRole (.paragraph q rendered') ≠ .plain := by rw [← hc, s.closes]; decide
      obtain ⟨a, b, hp⟩ := exists_closing hp
      obtain ⟨a', b', hq⟩ := exists_closing hq
      have hlines : linesOf (before ++ s.nodes ++ after) =
          linesOf before ++ p.text :: (linesOf s.body ++ q.text :: linesOf after) := by
        simp [linesOf, Node.paragraphsOf, NodeSpan.nodes, ho, hc, Node.paragraph?]
      have hmem : q.text ∈ linesOf s.body ++ q.text :: linesOf after := by simp
      obtain ⟨x, y, z, he⟩ :=
        Text.exists_append_of_mem_join_append ['\n'] (t := p.text) (linesOf before) hmem
      refine ⟨x ++ a, b ++ y ++ a', b' ++ z, ?_⟩
      rw [Text.unlines, hlines, he, hp, hq]
      simp
    | _ => simp [hc, Node.isParagraph, Node.paragraph?] at hclose
  | _ => simp [ho, Node.isParagraph, Node.paragraph?] at hopen

theorem nodeMarker?_row_of_busy {children : List Node} (h : Busy children) (before after : List Node)
    (attributes a : Text) (rendered r : Bool) :
    nodeMarker? (.row attributes (before ++ .cell a children r :: after) rendered) = none := by
  obtain ⟨x, y, z, he⟩ := h
  have hmem : Text.unlines (linesOf children) ∈
      Node.texts (before ++ .cell a children r :: after) := by
    induction before with
    | nil => simp [Node.texts, Node.text]
    | cons n before ih => exact List.mem_cons_of_mem n.text ih
  obtain ⟨u, v, hrow⟩ := Text.exists_append_of_mem_join ['\t'] hmem
  have hnone := Marker.lone?_eq_none_of_closings (u ++ x) y (z ++ v)
  rw [nodeMarker?, Node.text, hrow, he]
  simp only [List.append_assoc] at hnone ⊢
  rw [hnone]
  rfl

theorem nodeMarker?_row_of_linesOf {children children' : List Node}
    (h : linesOf children = linesOf children') (before after : List Node) (attributes a : Text)
    (rendered r : Bool) :
    nodeMarker? (.row attributes (before ++ .cell a children r :: after) rendered) =
      nodeMarker? (.row attributes (before ++ .cell a children' r :: after) rendered) := by
  have htexts : Node.texts (before ++ .cell a children r :: after) =
      Node.texts (before ++ .cell a children' r :: after) := by
    induction before with
    | nil => simp [Node.texts, Node.text, h]
    | cons n before ih => exact congrArg (n.text :: ·) ih
  rw [nodeMarker?, nodeMarker?, Node.text, Node.text, htexts]

theorem resolveCells_congr {children children' : List Node}
    (h : (resolveNodes fields children : Merging ι (List Node)) = resolveNodes fields children')
    (before after : List Node) (attributes : Text) (rendered : Bool) :
    (resolveCells fields (before ++ .cell attributes children rendered :: after) :
        Merging ι (List Node)) =
      resolveCells fields (before ++ .cell attributes children' rendered :: after) := by
  induction before with
  | nil => simp only [List.nil_append, resolveCells, h]
  | cons n before ih =>
    cases n <;> simp only [List.cons_append, resolveCells, ih]

/-! ### From a branch outwards -/

/-- What is the same at a level although a branch differs: the rest of a merge sees no more than this
of the nodes. -/
def Unseen (ι : Type) (fields : Condition.Fields) : Level → List Node → List Node → Prop
  | .blocks, ns, ms =>
    Interchangeable ι fields ns ms ∧ (linesOf ns = linesOf ms ∨ Busy ns ∧ Busy ms)
  | .rows, ns, ms => Interchangeable ι fields ns ms
  | .cells, ns, ms =>
    (resolveCells fields ns : Merging ι (List Node)) = resolveCells fields ms ∧
      ∀ attributes rendered,
        nodeMarker? (.row attributes ns rendered) = nodeMarker? (.row attributes ms rendered)

/-- **A branch that is not selected is not seen from outside.** -/
theorem unseen (h : OffBranch fields level ns ms) : Unseen ι fields level ns ms := by
  induction h with
  | @span level before after s stands i unselected new enclosed =>
    have hsame : Interchangeable ι fields (before ++ s.nodes ++ after)
        (before ++ (s.withBranch i new enclosed).nodes ++ after) := by
      rw [List.append_assoc, List.append_assoc]
      exact .append_left before (.span s unselected enclosed (.refl after))
    cases level with
    | blocks =>
      refine ⟨hsame, .inr ⟨busy_span stands before after, busy_span ?_ before after⟩⟩
      simpa [NodeSpan.StandsAt] using stands
    | rows => exact hsame
    | cells => exact stands.elim
  | table before after attributes rendered _ ih =>
    refine ⟨.append_left before (.node rfl ?_ (.refl after)), .inl ?_⟩
    · rw [resolveInside, resolveInside, Interchangeable.resolveNodes_eq ih]
    · simp [linesOf, Node.paragraphsOf, List.filterMap_cons, Node.paragraph?]
  | row before after attributes rendered _ ih =>
    refine .append_left before (.node (ih.2 attributes rendered) ?_ (.refl after))
    rw [resolveInside, resolveInside, ih.1]
  | @cell before after attributes rendered children children' _ ih =>
    refine ⟨resolveCells_congr ih.1.resolveNodes_eq before after attributes rendered, ?_⟩
    intro a r
    rcases ih.2 with hlines | ⟨hbusy, hbusy'⟩
    · exact nodeMarker?_row_of_linesOf hlines before after a attributes r rendered
    · rw [nodeMarker?_row_of_busy hbusy, nodeMarker?_row_of_busy hbusy']

theorem resolveNodes_eq (h : OffBranch fields .blocks ns ms) :
    (resolveNodes fields ns : Merging ι (List Node)) = resolveNodes fields ms :=
  h.unseen.1.resolveNodes_eq

end OffBranch
end MailMerge.Conditional

namespace MailMerge.Document

open Conditional (OffBranch)

/-- **A merge has the same outcome, whatever stands in a branch that is not selected**: the same
documents, warnings and images, or the same error. -/
theorem merge_offBranch (settings : Settings) (c : Context) (before after : List Part) (name : Text)
    {nodes nodes' : List Node} (h : OffBranch c.resolve .blocks nodes nodes') :
    Document.merge settings c ⟨before ++ ⟨name, nodes⟩ :: after⟩ =
      Document.merge settings c ⟨before ++ ⟨name, nodes'⟩ :: after⟩ := by
  have hpart : Part.merge settings c ⟨name, nodes⟩ = Part.merge settings c ⟨name, nodes'⟩ := by
    unfold Part.merge Part.mergeNodes
    dsimp only
    rw [h.resolveNodes_eq]
  unfold Document.merge
  dsimp only
  rw [List.mapM_append, List.mapM_append, List.mapM_cons, List.mapM_cons, hpart]

/-- A list with a section, for the case that there are items, and a line for the case that there are
none. -/
def guardedItems : Conditional.NodeSpan where
  first := ⟨Node.ofText "{{IF Items}}", [Node.ofText (Marker.enclose "#Items" ++ Marker.enclose "/Items")]⟩
  rest := [⟨Node.ofText "{{ELSE}}", [Node.ofText "none"]⟩]
  closer := Node.ofText "{{/IF}}"
  opens := by decide +kernel
  divides := by
    rintro a (_ | ⟨_, ⟨⟩⟩)
    decide +kernel
  closes := by decide +kernel
  enclosed := by
    rintro a (_ | ⟨_, _ | ⟨_, ⟨⟩⟩⟩)
    all_goals decide +kernel

/-- Without items, a field without a value and a divider inside a conditional may as well stand in a
cell in place of the list. -/
theorem merge_without_items :
    Document.merge {} {} ⟨[⟨"body", [.table [] [.row [] [.cell [] guardedItems.nodes]]]⟩]⟩ =
      Document.merge {} {} ⟨[⟨"body", [.table [] [.row [] [.cell [] [Node.ofText "{{IF Items}}",
        Node.ofText "{{IF a}}", Node.ofText "{{X}}", Node.ofText "{{ELSE}}", Node.ofText "{{/IF}}",
        Node.ofText "{{ELSE}}", Node.ofText "none", Node.ofText "{{/IF}}"]]]]⟩]⟩ := by
  have hselected : guardedItems.selected? (({} : Context).resolve) = .ok (some 1) := by
    decide +kernel
  have hnew : Conditional.isEnclosed 0 [Node.ofText "{{IF a}}", Node.ofText "{{X}}",
      Node.ofText "{{ELSE}}", Node.ofText "{{/IF}}"] := by
    decide +kernel
  have hspan : OffBranch ({} : Context).resolve .blocks guardedItems.nodes
      (guardedItems.withBranch 0 _ hnew).nodes := by
    simpa using OffBranch.span [] [] (show guardedItems.StandsAt .blocks from ⟨rfl, rfl⟩)
      (by rw [hselected]; simp) hnew
  exact merge_offBranch {} {} [] [] "body"
    (.table [] [] [] false (.row [] [] [] false (.cell [] [] [] false hspan)))

end MailMerge.Document
