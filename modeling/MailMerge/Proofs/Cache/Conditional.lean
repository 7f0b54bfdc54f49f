import MailMerge.Proofs.Cache.Agreement
import MailMerge.Proofs.Conditional.Nodes

/-!
# Conditionals over whole nodes, with a cache

The stage that resolves conditionals over whole nodes reads the text of a node each time it asks for
the node's marker: while it looks for the end of a conditional, while it divides the body into branches,
and again when it comes to the nodes of the branch. A list of nodes that has changed is put in place of
the old one, and then the texts are forgotten.

**`Cached.agrees_resolveNodes`**: on ready nodes the stage has the outcome that it has without a cache,
and leaves nodes with distinct keys.
-/

namespace MailMerge

open Conditional (conditionHolds selectFirst untilEnd)

/-- A branch of a conditional of keyed nodes. -/
structure KeyedBranch where
  condition : Option Text
  nodes : List Keyed

/-- The branch without the keys. -/
def KeyedBranch.forget (b : KeyedBranch) : Conditional.NodeBranch where
  condition := b.condition
  nodes := Keyed.forgetAll b.nodes

namespace Cached

variable {ι : Type} {fields : Condition.Fields}

/-! ## Markers -/

/-- The conditional marker that fills a paragraph or row, whose text is read. -/
def nodeMarker? (n : Keyed) : Cached ι (Option Marker) :=
  match n.head with
  | .paragraph .. | .row .. => do
    return (Marker.lone? (← read n)).filter fun m => m.kind.isConditional
  | _ => pure none

theorem looks_nodeMarker? {n : Keyed} {ns : List Keyed} (hn : n ∈ Keyed.allOf ns) :
    Looks ns (nodeMarker? n : Cached ι (Option Marker)) (Conditional.nodeMarker? n.forget) := by
  have hread := (Looks.read (ι := ι) hn).map fun t =>
    (Marker.lone? t).filter fun m => m.kind.isConditional
  obtain ⟨key, head, inside⟩ := n
  rw [map_eq_pure_bind] at hread
  cases head with
  | paragraph p rendered => exact hread
  | row attributes cells rendered => exact hread
  | table | cell | pageBreak | verbatim => exact .pure none

/-! ## The end of a conditional -/

/-- How many nodes stand before the `/IF` that ends the current conditional. -/
def bodyLength (opened : Nat) : List Keyed → Cached ι (Option Nat)
  | [] => pure none
  | n :: ns => do
    let marker ← nodeMarker? n
    match marker.map fun m : Marker => m.kind with
    | some .ifStart => return (← bodyLength (opened + 1) ns).map (· + 1)
    | some .ifEnd =>
      match opened with
      | 0 => return some 0
      | opened + 1 => return (← bodyLength opened ns).map (· + 1)
    | _ => return (← bodyLength opened ns).map (· + 1)

theorem looks_bodyLength {ns : List Keyed} (opened : Nat) {ms : List Keyed}
    (hms : ∀ m ∈ ms, m ∈ Keyed.allOf ns) :
    Looks ns (bodyLength opened ms : Cached ι (Option Nat))
      ((untilEnd opened (Keyed.forgetAll ms)).map (·.1.length)) := by
  induction ms generalizing opened with
  | nil => exact .pure none
  | cons m ms ih =>
    have ih := fun opened => ih opened fun x hx => hms x (List.mem_cons_of_mem m hx)
    have hrest : ∀ opened, Looks ns
        (do return (← bodyLength opened ms).map (· + 1) : Cached ι (Option Nat))
        ((untilEnd opened (Keyed.forgetAll ms)).map (·.1.length + 1)) := by
      intro opened
      have h := (ih opened).map fun count => count.map (· + 1)
      rwa [map_eq_pure_bind, Option.map_map] at h
    have hmarker := looks_nodeMarker? (ι := ι) (hms m List.mem_cons_self)
    unfold bodyLength
    rw [Keyed.forgetAll]
    refine hmarker.bind ?_
    cases hk : (Conditional.nodeMarker? m.forget).map fun m => m.kind with
    | none =>
      simp only [untilEnd, Conditional.nodeKind, hk, Option.map_map]
      exact hrest opened
    | some kind =>
      cases kind with
      | ifStart =>
        simp only [untilEnd, Conditional.nodeKind, hk, Option.map_map]
        exact hrest (opened + 1)
      | ifEnd =>
        cases opened with
        | zero =>
          simp only [untilEnd, Conditional.nodeKind, hk]
          exact .pure (some 0)
        | succ opened =>
          simp only [untilEnd, Conditional.nodeKind, hk, Option.map_map]
          exact hrest opened
      | _ =>
        simp only [untilEnd, Conditional.nodeKind, hk, Option.map_map]
        exact hrest opened

/-- The body of a conditional and what is after it, by the length of the body. -/
theorem untilEnd_eq_some {opened : Nat} {nodes body after : List Node}
    (h : untilEnd opened nodes = some (body, after)) :
    body = nodes.take body.length ∧ after = nodes.drop (body.length + 1) := by
  induction nodes generalizing opened body with
  | nil => simp [untilEnd] at h
  | cons n ns ih =>
    have hstep : ∀ {k b}, (untilEnd k ns).map (fun p => (n :: p.1, p.2)) = some (b, after) →
        b = (n :: ns).take b.length ∧ after = (n :: ns).drop (b.length + 1) := by
      intro k b hb
      obtain ⟨⟨b', after'⟩, hb', he⟩ := Option.map_eq_some_iff.1 hb
      obtain ⟨rfl, rfl⟩ := Prod.mk.inj he
      obtain ⟨h₁, h₂⟩ := ih hb'
      exact ⟨congrArg (n :: ·) h₁, h₂⟩
    unfold untilEnd at h
    split at h
    · exact hstep h
    · split at h
      · obtain ⟨rfl, rfl⟩ := Prod.mk.inj (Option.some.inj h)
        exact ⟨rfl, rfl⟩
      · exact hstep h
    · exact hstep h

/-! ## Branches -/

/-- The branches of a conditional of which the first has the given condition, where the markers of the
nodes are given too. -/
def divide (condition : Option Text) (opened : Int) : List (Keyed × Option Marker) → List KeyedBranch
  | [] => [⟨condition, []⟩]
  | (n, none) :: ns => keep n (divide condition opened ns)
  | (n, some m) :: ns =>
    match m.kind with
    | .ifStart => keep n (divide condition (opened + 1) ns)
    | .ifEnd => keep n (divide condition (opened - 1) ns)
    | kind =>
      if opened = 0 then
        ⟨condition, []⟩ :: divide (if kind = .elseIf then some m.argument else none) opened ns
      else
        keep n (divide condition opened ns)
where
  /-- The branches with a node put before the first one's. -/
  keep (n : Keyed) : List KeyedBranch → List KeyedBranch
    | [] => []
    | b :: rest => { b with nodes := n :: b.nodes } :: rest

theorem map_forget_keep (n : Keyed) (bs : List KeyedBranch) :
    (divide.keep n bs).map KeyedBranch.forget =
      Conditional.divide.keep n.forget (bs.map KeyedBranch.forget) := by
  cases bs <;> rfl

/-- The branches are those of the nodes without their keys. -/
theorem map_forget_divide (condition : Option Text) (opened : Int) (ns : List Keyed) :
    (divide condition opened (ns.map fun n => (n, Conditional.nodeMarker? n.forget))).map
        KeyedBranch.forget =
      Conditional.divide condition opened (Keyed.forgetAll ns) := by
  induction ns generalizing condition opened with
  | nil => rfl
  | cons n ns ih =>
    rw [List.map_cons, Keyed.forgetAll]
    unfold divide Conditional.divide
    cases Conditional.nodeMarker? n.forget with
    | none =>
      dsimp only
      rw [map_forget_keep, ih]
    | some m =>
      cases hk : m.kind with
      | ifStart | ifEnd =>
        simp only [hk]
        rw [map_forget_keep, ih]
      | _ =>
        simp only [hk]
        split
        · rw [List.map_cons, ih]
          rfl
        · rw [map_forget_keep, ih]

theorem nodes_sublist_of_mem_divide {condition : Option Text} {opened : Int}
    {ps : List (Keyed × Option Marker)} {b : KeyedBranch} (h : b ∈ divide condition opened ps) :
    b.nodes.Sublist (ps.map Prod.fst) := by
  induction ps generalizing condition opened b with
  | nil =>
    rw [List.mem_singleton.1 h]
    exact .slnil
  | cons p ps ih =>
    obtain ⟨n, marker⟩ := p
    have hkeep : ∀ {c o}, b ∈ divide.keep n (divide c o ps) →
        b.nodes.Sublist (n :: ps.map Prod.fst) := by
      intro c o hb
      cases hd : divide c o ps with
      | nil => simp [hd, divide.keep] at hb
      | cons x xs =>
        rw [hd] at hb
        rcases List.mem_cons.1 hb with rfl | hb
        · exact (@ih c o x (by simp [hd])).cons_cons n
        · exact (@ih c o b (by simp [hd, hb])).cons n
    cases marker with
    | none => exact hkeep h
    | some m =>
      unfold divide at h
      split at h
      · exact hkeep h
      · exact hkeep h
      · split at h
        · rcases List.mem_cons.1 h with rfl | h
          · exact List.nil_sublist _
          · exact (ih h).cons n
        · exact hkeep h

theorem map_fst_zip_sublist {α β : Type} (xs : List α) (ys : List β) :
    ((xs.zip ys).map Prod.fst).Sublist xs := by
  induction xs generalizing ys with
  | nil => exact .slnil
  | cons x xs ih =>
    cases ys with
    | nil => exact List.nil_sublist _
    | cons y ys => exact (ih ys).cons_cons x

/-- The branch that is selected, known to be one of the given ones. -/
def selectBranch (fields : Condition.Fields) (bs : List KeyedBranch) :
    Cached ι (Option { b // b ∈ bs }) :=
  lift do
    let (selected, warnings) ← .ofFault (selectFirst fields (·.val.condition) bs.attach)
    .report warnings [] selected

/-! ## Resolving -/

/-- A list of nodes with other nodes in their place: if they are not the same ones, the texts are
forgotten. -/
def rebuilt (ns : List Keyed) (x : Cached ι (List Keyed)) : Cached ι (List Keyed) := do
  let ms ← x
  if ms.map Keyed.key ≠ ns.map Keyed.key then invalidate
  return ms

mutual

/-- Sibling nodes with their conditionals resolved, in them and beneath them. -/
def resolveNodes (fields : Condition.Fields) : List Keyed → Cached ι (List Keyed)
  | [] => pure []
  | n :: ns => do
    let marker ← nodeMarker? n
    match marker.map fun m : Marker => m.kind with
    | some .ifStart => do
      let _ ← nodeMarker? n
      match ← bodyLength 0 ns with
      | none => lift (.fail (.unclosedConditional ((marker.map fun m : Marker => m.argument).getD [])))
      | some count => do
        let markers ← (ns.take count).mapM nodeMarker?
        let branches := divide (marker.map fun m : Marker => m.argument) 0 ((ns.take count).zip markers)
        let kept ←
          match ← selectBranch fields branches with
          | none => pure []
          | some ⟨b, _hb⟩ => resolveNodes fields b.nodes
        return kept ++ (← resolveNodes fields (ns.drop (count + 1)))
    | some .ifEnd => do
      lift (Merging.warn .unopenedConditional)
      resolveNodes fields ns
    | _ => return (← resolveInside fields n) :: (← resolveNodes fields ns)
  termination_by nodes => Keyed.sizes nodes
  decreasing_by
    · have := Keyed.sizes_drop_le ns (count + 1)
      simp only [Keyed.sizes]
      omega
    · have h₁ := Keyed.sizes_le_of_sublist (nodes_sublist_of_mem_divide _hb)
      have h₂ := Keyed.sizes_le_of_sublist (map_fst_zip_sublist (ns.take count) markers)
      have h₃ := Keyed.sizes_take_le ns count
      simp only [Keyed.sizes]
      omega
    all_goals simp only [Keyed.sizes]; omega

/-- A node with the conditionals inside it resolved. -/
def resolveInside (fields : Condition.Fields) (n : Keyed) : Cached ι Keyed :=
  match n.head with
  | .table .. => return .node n.key n.head (← rebuilt n.inside (resolveNodes fields n.inside))
  | .row .. => return .node n.key n.head (← resolveCells fields n.inside)
  | _ => pure n
  termination_by n.size
  decreasing_by all_goals rw [Keyed.size_eq]; omega

/-- The cells of a row with the conditionals inside them resolved. -/
def resolveCells (fields : Condition.Fields) : List Keyed → Cached ι (List Keyed)
  | [] => pure []
  | n :: cells =>
    match n.head with
    | .cell .. => do
      let inside ← rebuilt n.inside (resolveNodes fields n.inside)
      return .node n.key n.head inside :: (← resolveCells fields cells)
    | _ => return n :: (← resolveCells fields cells)
  termination_by cells => Keyed.sizes cells
  decreasing_by
    · have := Keyed.size_eq n
      simp only [Keyed.sizes]
      omega
    all_goals simp only [Keyed.sizes]; omega

end

/-! ## Agreement -/

theorem map_val_find?_attach {α : Type} (xs : List α) (p : α → Bool) :
    (xs.attach.find? fun x => p x.val).map (·.val) = xs.find? p := by
  conv_rhs => rw [← List.attach_map_subtype_val xs, List.find?_map]
  rfl

theorem agrees_selectBranch {K : List Nat} {σ : Store} (bs : List KeyedBranch) :
    Agrees K σ (selectBranch fields bs : Cached ι _)
      (Conditional.selectBranch fields (bs.map KeyedBranch.forget))
      fun σ' selected selected' =>
        σ' = σ ∧ selected'.map (·.val) = selected.map (·.val.forget) := by
  have hconditions : (bs.map KeyedBranch.forget).attach.map (fun b => b.val.condition) =
      bs.attach.map fun b => b.val.condition := by
    rw [List.attach_map_val, List.attach_map_val, List.map_map]
    rfl
  unfold selectBranch Conditional.selectBranch
  rw [Conditional.selectFirst_eq, Conditional.selectFirst_eq, hconditions]
  cases Conditional.ask fields (bs.attach.map fun b => b.val.condition) with
  | error f => exact .error (.fault f) σ rfl rfl (.refl K σ)
  | ok ws =>
    refine .ok _ _ _ σ rfl rfl (.refl K σ) ⟨rfl, ?_⟩
    rw [map_val_find?_attach (bs.map KeyedBranch.forget) fun b => conditionHolds fields b.condition,
      List.find?_map, ← map_val_find?_attach bs, Option.map_map]
    rfl

/-- The nodes that are left are the given ones, with distinct keys. -/
def Left (ns : List Keyed) (_ : Store) (ms : List Keyed) (ms' : List Node) : Prop :=
  Keyed.forgetAll ms = ms' ∧ (Keyed.keys ms).Sublist (Keyed.keys ns)

theorem agrees_rebuilt {keys : List Nat} {σ : Store} {ns : List Keyed} {x : Cached ι (List Keyed)}
    {y : Merging ι (List Node)} (h : Agrees keys σ x y (Left ns)) :
    Agrees keys σ (rebuilt ns x) y (Left ns) := by
  have hy : y = y >>= pure := (bind_pure y).symm
  rw [hy]
  refine h.bind (fun σ₁ ms ms' _ hms => ?_) (List.Subset.refl keys) (List.Subset.refl keys)
  split
  · exact .invalidate (.pure hms)
  · exact .pure hms

section Steps

variable {σ : Store} {n : Keyed} {ns : List Keyed}

/-- Two lists of nodes are worked on in turn. -/
theorem agrees_append {α β : Type} (ms : List Keyed) {rest : List Keyed} {x : Cached ι α} {y : Merging ι β}
    {F : α → List Keyed} {G : β → List Node} {xs : Cached ι (List Keyed)}
    {ys : Merging ι (List Node)} (h : Ready σ (ms ++ rest))
    (hms : Agrees (Keyed.keys ms) σ x y fun σ' a b => Left ms σ' (F a) (G b))
    (hrest : ∀ σ', Ready σ' rest → Agrees (Keyed.keys rest) σ' xs ys (Left rest)) :
    Agrees (Keyed.keys (ms ++ rest)) σ (do return F (← x) ++ (← xs))
      (do return G (← y) ++ (← ys)) (Left (ms ++ rest)) := by
  rw [Keyed.keys_append]
  refine hms.bind (fun σ₁ a b hs hleft => ?_) (List.subset_append_left _ _) (List.Subset.refl _)
  refine (hrest σ₁ (h.rest hs)).bind (fun σ₂ ns ns' _ hns => ?_) (List.subset_append_right _ _)
    (List.Subset.refl _)
  refine .pure ⟨?_, ?_⟩
  · rw [Keyed.forgetAll_append, hleft.1, hns.1]
  · rw [Keyed.keys_append, Keyed.keys_append]
    exact hleft.2.append hns.2

/-- The nodes inside a node are worked on. -/
theorem agrees_within {key : Nat} {head : Node} {inside : List Keyed} {x : Cached ι (List Keyed)}
    {y : Merging ι (List Node)} (h : Agrees (Keyed.keys inside) σ x y (Left inside)) :
    Agrees (Keyed.keys [.node key head inside]) σ (do return .node key head (← x))
      (do return head.withChildren (← y))
      fun σ' m m' => Left [.node key head inside] σ' [m] [m'] := by
  have hkeys := Keyed.keys_singleton (.node key head inside)
  refine h.bind (L := []) (fun σ₁ ms ms' _ hms => .pure ⟨?_, ?_⟩) ?_ (List.nil_subset _)
  · rw [← hms.1]
    rfl
  · rw [hkeys, Keyed.keys_singleton]
    exact hms.2.cons_cons key
  · rw [hkeys]
    exact List.subset_cons_self _ _

/-- Some of the nodes are worked on, and then others behind them. -/
theorem agrees_parts {ms rest ns : List Keyed} {x xs : Cached ι (List Keyed)} {y ys : Merging ι (List Node)}
    (hsub : (ms ++ rest).Sublist ns) (h : Ready σ ns)
    (hms : ∀ σ', Ready σ' ms → Agrees (Keyed.keys ms) σ' x y (Left ms))
    (hrest : ∀ σ', Ready σ' rest → Agrees (Keyed.keys rest) σ' xs ys (Left rest)) :
    Agrees (Keyed.keys ns) σ (do return (← x) ++ (← xs)) (do return (← y) ++ (← ys)) (Left ns) := by
  have hall := Keyed.allOf_sublist hsub
  have hready := h.sublist hall
  have hfirst := hms σ (hready.sublist (Keyed.allOf_sublist (List.sublist_append_left ms rest)))
  refine ((agrees_append ms (F := id) (G := id) hready hfirst hrest).mono
    fun k hk => .inl ((Keyed.keys_sublist hall).subset hk)).imp fun σ' zs zs' _ hzs => ?_
  exact ⟨hzs.1, hzs.2.trans (Keyed.keys_sublist hall)⟩

/-- Some nodes inside a conditional and those after it are some of the nodes, in order. -/
theorem sublist_branch_append {n : Keyed} {ms ns : List Keyed} {count : Nat} (h : ms.Sublist (ns.take count)) :
    (ms ++ ns.drop (count + 1)).Sublist (n :: ns) := by
  have happend := h.append (List.drop_sublist_drop_left ns (Nat.le_succ count))
  rw [List.take_append_drop] at happend
  exact happend.cons n

/-- A conditional is replaced by its branch, and the nodes after it are worked on. -/
theorem agrees_opens (h : Ready σ (n :: ns)) (ho : Conditional.nodeRole n.forget = .opens)
    (hns : ∀ ms, Keyed.sizes ms < Keyed.sizes (n :: ns) → ∀ σ', Ready σ' ms →
      Agrees (Keyed.keys ms) σ' (resolveNodes fields ms : Cached ι _)
        (Conditional.resolveNodes fields (Keyed.forgetAll ms)) (Left ms)) :
    Agrees (Keyed.keys (n :: ns)) σ (resolveNodes fields (n :: ns) : Cached ι _)
      (Conditional.resolveNodes fields (Keyed.forgetAll (n :: ns))) (Left (n :: ns)) := by
  obtain ⟨m, hm⟩ := Conditional.exists_nodeMarker? (n := n.forget) (by rw [ho]; decide)
  have hk := ho
  rw [Conditional.nodeRole_of_nodeMarker? hm, Conditional.kindRole_eq_opens] at hk
  have hcondition := Conditional.nodeCondition_of_opens hm hk
  have hmarker : Looks (n :: ns) (nodeMarker? n : Cached ι _) _ :=
    looks_nodeMarker? (List.mem_append_left (Keyed.allOf ns) (Keyed.mem_all n))
  have hmem : ∀ x ∈ ns, x ∈ Keyed.allOf (n :: ns) := fun x hx =>
    List.mem_append_right _ ((Keyed.all_sublist_of_mem hx).subset (Keyed.mem_all x))
  rw [hm] at hmarker
  rw [resolveNodes, Keyed.forgetAll]
  refine .look hmarker h (List.Subset.refl _) fun σ₁ _ h₁ => ?_
  simp only [Option.map_some, hk, Option.getD_some]
  refine .look hmarker h₁ (List.Subset.refl _) fun σ₂ _ h₂ => ?_
  refine .look (looks_bodyLength 0 hmem) h₂ (List.Subset.refl _) fun σ₃ _ h₃ => ?_
  cases hu : untilEnd 0 (Keyed.forgetAll ns) with
  | none =>
    rw [Conditional.resolveNodes_unclosed ho hu, hcondition]
    exact .fail _
  | some r =>
    obtain ⟨body, after⟩ := r
    obtain ⟨hbody, hafter⟩ := untilEnd_eq_some hu
    rw [Conditional.resolveNodes_opens ho hu, hcondition]
    simp only [Option.map_some]
    rw [← Keyed.forgetAll_take] at hbody
    rw [← Keyed.forgetAll_drop] at hafter
    generalize body.length = count at hbody hafter ⊢
    subst hbody hafter
    have htake := List.take_sublist count ns
    have hmarkers : Looks (n :: ns) ((ns.take count).mapM nodeMarker? : Cached ι _)
        ((ns.take count).map fun x => Conditional.nodeMarker? x.forget) :=
      .mapM fun x hx => looks_nodeMarker? (hmem x (htake.subset hx))
    refine .look hmarkers h₃ (List.Subset.refl _) fun σ₄ _ h₄ => ?_
    have hzip : (ns.take count).zip ((ns.take count).map fun x => Conditional.nodeMarker? x.forget) =
        (ns.take count).map fun x => (x, Conditional.nodeMarker? x.forget) := by
      exact List.map_prod_left_eq_zip.symm
    rw [hzip, ← map_forget_divide]
    refine (agrees_selectBranch (K := Keyed.keys (n :: ns)) _).bind (L := Keyed.keys (n :: ns))
      ?_ (List.Subset.refl _) (List.Subset.refl _)
    rintro σ₅ selected selected' - ⟨rfl, hselected⟩
    have hrest : ∀ σ', Ready σ' (ns.drop (count + 1)) → _ :=
      fun σ' => hns (ns.drop (count + 1)) (by
        have := Keyed.sizes_drop_le ns (count + 1)
        simp only [Keyed.sizes]
        omega) σ'
    have hagrees : ∀ (ms : List Keyed) (x : Cached ι (List Keyed)) (y : Merging ι (List Node)),
        ms.Sublist (ns.take count) → (∀ σ', Ready σ' ms → Agrees (Keyed.keys ms) σ' x y (Left ms)) → _ :=
      fun ms x y hms hx => agrees_parts (x := x) (y := y) (sublist_branch_append (n := n) hms) h₄ hx hrest
    cases selected with
    | none =>
      obtain rfl : selected' = none := by simpa using hselected
      have h := hagrees [] (pure []) (pure []) (List.nil_sublist _) fun _ _ => .pure ⟨rfl, .slnil⟩
      exact h
    | some b =>
      obtain ⟨b', rfl, hb'⟩ : ∃ b', selected' = some b' ∧ b'.val = b.val.forget := by
        simpa using hselected
      have hsub := nodes_sublist_of_mem_divide b.property
      rw [List.map_map, show Prod.fst ∘ (fun x : Keyed => (x, Conditional.nodeMarker? x.forget)) = id
        from rfl, List.map_id] at hsub
      have hsize : Keyed.sizes b.val.nodes < Keyed.sizes (n :: ns) := by
        have h₁ := Keyed.sizes_le_of_sublist hsub
        have h₂ := Keyed.sizes_take_le ns count
        simp only [Keyed.sizes]
        omega
      have h := hagrees b.val.nodes _ _ hsub (hns b.val.nodes hsize)
      rw [show Keyed.forgetAll b.val.nodes = b'.val.nodes by rw [hb']; rfl] at h
      exact h

/-- An `/IF` without an `IF` is reported and left out. -/
theorem agrees_closes (h : Ready σ (n :: ns)) (hc : Conditional.nodeRole n.forget = .closes)
    (hns : ∀ σ', Ready σ' ns → Agrees (Keyed.keys ns) σ' (resolveNodes fields ns : Cached ι _)
      (Conditional.resolveNodes fields (Keyed.forgetAll ns)) (Left ns)) :
    Agrees (Keyed.keys (n :: ns)) σ (resolveNodes fields (n :: ns) : Cached ι _)
      (Conditional.resolveNodes fields (Keyed.forgetAll (n :: ns))) (Left (n :: ns)) := by
  obtain ⟨m, hm⟩ := Conditional.exists_nodeMarker? (n := n.forget) (by rw [hc]; decide)
  have hk := hc
  rw [Conditional.nodeRole_of_nodeMarker? hm, Conditional.kindRole_eq_closes] at hk
  have hmarker : Looks (n :: ns) (nodeMarker? n : Cached ι _) _ :=
    looks_nodeMarker? (List.mem_append_left (Keyed.allOf ns) (Keyed.mem_all n))
  have hsub := Keyed.allOf_sublist (List.sublist_cons_self n ns)
  rw [hm] at hmarker
  rw [resolveNodes, Keyed.forgetAll, Conditional.resolveNodes_closes hc]
  refine .look hmarker h (List.Subset.refl _) fun σ₁ _ h₁ => ?_
  simp only [Option.map_some, hk]
  refine (Agrees.lift (R := fun σ' _ _ => σ' = σ₁) (K := Keyed.keys (n :: ns)) _ fun _ => rfl).bind
    ?_ (List.Subset.refl _) (Keyed.keys_sublist hsub).subset
  rintro σ₂ _ _ - rfl
  exact (hns _ (h₁.sublist hsub)).imp fun σ' ms ms' _ hms =>
    ⟨hms.1, hms.2.trans (Keyed.keys_sublist hsub)⟩

/-- Any other node stays, with the conditionals inside it resolved. -/
theorem agrees_inside (h : Ready σ (n :: ns)) (ho : Conditional.nodeRole n.forget ≠ .opens)
    (hc : Conditional.nodeRole n.forget ≠ .closes)
    (hn : ∀ σ', Ready σ' [n] → Agrees (Keyed.keys [n]) σ' (resolveInside fields n : Cached ι _)
      (Conditional.resolveInside fields n.forget) fun σ' m m' => Left [n] σ' [m] [m'])
    (hns : ∀ σ', Ready σ' ns → Agrees (Keyed.keys ns) σ' (resolveNodes fields ns : Cached ι _)
      (Conditional.resolveNodes fields (Keyed.forgetAll ns)) (Left ns)) :
    Agrees (Keyed.keys (n :: ns)) σ (resolveNodes fields (n :: ns) : Cached ι _)
      (Conditional.resolveNodes fields (Keyed.forgetAll (n :: ns))) (Left (n :: ns)) := by
  have hmarker : Looks (n :: ns) (nodeMarker? n : Cached ι _) _ :=
    looks_nodeMarker? (List.mem_append_left (Keyed.allOf ns) (Keyed.mem_all n))
  have hhead := Keyed.allOf_sublist (List.singleton_sublist.2 (List.mem_cons_self (a := n) (l := ns)))
  rw [resolveNodes, Keyed.forgetAll, Conditional.resolveNodes_inside ho hc]
  refine .look hmarker h (List.Subset.refl _) fun σ₁ _ h₁ => ?_
  have hrest := agrees_append [n] (F := fun m => [m]) (G := fun m => [m]) h₁
    (hn σ₁ (h₁.sublist hhead)) hns
  unfold Conditional.nodeRole Conditional.nodeKind at ho hc
  cases hk : (Conditional.nodeMarker? n.forget).map fun m => m.kind with
  | none => exact hrest
  | some kind =>
    rw [hk] at ho hc
    cases kind with
    | ifStart => exact absurd rfl ho
    | ifEnd => exact absurd rfl hc
    | _ => exact hrest

end Steps

mutual

/-- **On ready nodes the stage has the outcome that it has without a cache.** -/
theorem agrees_resolveNodes (σ : Store) : ∀ ns : List Keyed, Ready σ ns →
    Agrees (Keyed.keys ns) σ (resolveNodes fields ns : Cached ι _)
      (Conditional.resolveNodes fields (Keyed.forgetAll ns)) (Left ns)
  | [], _ => by
    rw [resolveNodes, Keyed.forgetAll, Conditional.resolveNodes]
    exact .pure ⟨rfl, .slnil⟩
  | n :: ns, h => by
    have hns : ∀ σ', Ready σ' ns → _ := fun σ' => agrees_resolveNodes σ' ns
    by_cases ho : Conditional.nodeRole n.forget = .opens
    · exact agrees_opens h ho fun ms hms σ' => agrees_resolveNodes σ' ms
    · by_cases hc : Conditional.nodeRole n.forget = .closes
      · exact agrees_closes h hc hns
      · exact agrees_inside h ho hc (fun σ' => agrees_resolveInside σ' n) hns
  termination_by ns => Keyed.sizes ns
  decreasing_by
    · simp only [Keyed.sizes]; omega
    · exact hms
    · simp only [Keyed.sizes]; omega

theorem agrees_resolveInside (σ : Store) : ∀ n : Keyed, Ready σ [n] →
    Agrees (Keyed.keys [n]) σ (resolveInside fields n : Cached ι _)
      (Conditional.resolveInside fields n.forget) fun σ' m m' => Left [n] σ' [m] [m']
  | .node key head inside, h => by
    have hinside : Ready σ inside :=
      h.sublist ((Keyed.allOf_inside_sublist (.node key head inside)).trans
        (List.sublist_append_left _ _))
    have hsame : Left [.node key head inside] σ [.node key head inside]
        [(Keyed.node key head inside).forget] := ⟨rfl, .refl _⟩
    rw [resolveInside]
    cases head with
    | table attributes rows rendered =>
      rw [Keyed.forget, Node.withChildren, Conditional.resolveInside]
      exact agrees_within (agrees_rebuilt (agrees_resolveNodes σ inside hinside))
    | row attributes cells rendered =>
      rw [Keyed.forget, Node.withChildren, Conditional.resolveInside]
      exact agrees_within (agrees_resolveCells σ inside hinside)
    | paragraph | cell | pageBreak | verbatim =>
      rw [Keyed.forget, Node.withChildren, Conditional.resolveInside]
      · exact .pure hsame
      all_goals simp
  termination_by n => n.size
  decreasing_by all_goals simp only [Keyed.size]; omega

theorem agrees_resolveCells (σ : Store) : ∀ cells : List Keyed, Ready σ cells →
    Agrees (Keyed.keys cells) σ (resolveCells fields cells : Cached ι _)
      (Conditional.resolveCells fields (Keyed.forgetAll cells)) (Left cells)
  | [], _ => by
    rw [resolveCells, Keyed.forgetAll, Conditional.resolveCells]
    exact .pure ⟨rfl, .slnil⟩
  | .node key head inside :: cells, h => by
    have hcells : ∀ σ', Ready σ' cells → _ := fun σ' => agrees_resolveCells σ' cells
    have hinside : Ready σ inside :=
      h.sublist ((Keyed.allOf_inside_sublist (.node key head inside)).trans
        (List.sublist_append_left _ _))
    rw [resolveCells, Keyed.forgetAll, Keyed.forget]
    cases head with
    | cell attributes children rendered =>
      rw [Node.withChildren, Conditional.resolveCells]
      have h := agrees_append [.node key (.cell attributes children rendered) inside]
        (F := fun m => [m]) (G := fun m => [m]) h
        (agrees_within (agrees_rebuilt (agrees_resolveNodes σ inside hinside))) hcells
      simp only [bind_assoc, pure_bind] at h
      exact h
    | paragraph | table | row | pageBreak | verbatim =>
      rw [Node.withChildren, Conditional.resolveCells]
      · have h := agrees_append [.node key _ inside] (F := fun m => [m])
          (G := fun m => [m]) h
          (.pure (b := (Keyed.node key _ inside).forget) ⟨rfl, .refl _⟩) hcells
        simp only [pure_bind] at h
        exact h
      all_goals simp
  termination_by cells => Keyed.sizes cells
  decreasing_by all_goals simp only [Keyed.sizes, Keyed.size]; omega

end

end Cached
end MailMerge
