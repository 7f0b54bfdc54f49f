import MailMerge.Proofs.Conditional.Nodes

/-!
# Conditionals among siblings

A conditional of whole nodes is a run of siblings: its branches, each from the node that begins it
up to the next one, and then the node that ends it. What stands in a branch is enclosed: it ends
every conditional that it begins, and divides none that it has not begun. So a conditional is found
with the same borders wherever it stands, whatever its branches hold.

**`resolveNodes_span`**: a conditional resolves to its selected branch, and the nodes after it follow.

**`resolveNodes_withBranch`**: the nodes in a branch that is not selected do not matter.
-/

namespace MailMerge.Conditional

/-! ## Enclosed nodes -/

/-- The nodes end all the conditionals that are open and those that they begin, and no others. They
divide conditionals that are open only. -/
def isEnclosed : (opened : Nat) → List Node → Bool
  | opened, [] => opened = 0
  | opened, n :: ns =>
    match nodeRole n, opened with
    | .opens, opened => isEnclosed (opened + 1) ns
    | .closes, 0 => false
    | .closes, opened + 1 => isEnclosed opened ns
    | .divides, 0 => false
    | _, opened => isEnclosed opened ns

/-- **The end of a conditional is not looked for in enclosed nodes.** -/
theorem untilEnd_enclosed {opened : Nat} {ns : List Node} (h : isEnclosed opened ns) (k : Nat)
    (rest : List Node) :
    untilEnd (opened + k) (ns ++ rest) =
      (untilEnd k rest).map fun (body, after) => (ns ++ body, after) := by
  induction ns generalizing opened with
  | nil =>
    obtain rfl : opened = 0 := by simpa [isEnclosed] using h
    simp
  | cons n ns ih =>
    have hmap : ∀ r : Option (List Node × List Node),
        (r.map fun (body, after) => (ns ++ body, after)).map (fun (body, after) => (n :: body, after)) =
          r.map fun (body, after) => (n :: ns ++ body, after) := by
      intro r
      cases r <;> rfl
    rw [← hmap, List.cons_append]
    cases hr : nodeRole n with
    | opens =>
      rw [untilEnd_opens hr, Nat.add_right_comm, ih (by simpa [isEnclosed, hr] using h)]
    | closes =>
      cases opened with
      | zero => simp [isEnclosed, hr] at h
      | succ opened =>
        rw [Nat.add_right_comm, untilEnd_closes_succ hr, ih (by simpa [isEnclosed, hr] using h)]
    | divides =>
      cases opened with
      | zero => simp [isEnclosed, hr] at h
      | succ opened =>
        rw [untilEnd_inside (by simp [hr]) (by simp [hr]), ih (by simpa [isEnclosed, hr] using h)]
    | plain =>
      rw [untilEnd_inside (by simp [hr]) (by simp [hr]), ih (by simpa [isEnclosed, hr] using h)]

/-- **Enclosed nodes divide no conditional around them.** -/
theorem divide_enclosed {opened : Nat} {ns : List Node} (h : isEnclosed opened ns)
    (condition : Option Text) (k : Nat) (rest : List Node) :
    divide condition ((opened + k : Nat) : Int) (ns ++ rest) =
      keepNodes ns (divide condition (k : Int) rest) := by
  induction ns generalizing opened with
  | nil =>
    obtain rfl : opened = 0 := by simpa [isEnclosed] using h
    simp [keepNodes]
  | cons n ns ih =>
    show _ = divide.keep n (keepNodes ns (divide condition k rest))
    rw [List.cons_append]
    cases hr : nodeRole n with
    | opens =>
      have hi := @ih (opened + 1) (by simpa [isEnclosed, hr] using h)
      rw [divide_opens hr, ← hi]
      congr 2
      omega
    | closes =>
      cases opened with
      | zero => simp [isEnclosed, hr] at h
      | succ opened =>
        have hi := @ih opened (by simpa [isEnclosed, hr] using h)
        rw [divide_closes hr, ← hi]
        congr 2
        omega
    | divides =>
      cases opened with
      | zero => simp [isEnclosed, hr] at h
      | succ opened =>
        rw [divide_inside (by simp [hr]) (by simp [hr]) (fun _ => by omega),
          ih (by simpa [isEnclosed, hr] using h)]
    | plain =>
      rw [divide_inside (by simp [hr]) (by simp [hr]) (by simp [hr]),
        ih (by simpa [isEnclosed, hr] using h)]

/-! ## Conditionals -/

/-- A branch as it stands: the node that begins it, and the nodes up to the next branch. -/
structure Arm where
  head : Node
  nodes : List Node

namespace Arm

/-- The condition of the branch. -/
def condition (a : Arm) : Option Text :=
  nodeCondition a.head

/-- All nodes of the branch. -/
def all (a : Arm) : List Node :=
  a.head :: a.nodes

/-- The branch with other nodes after its first one. -/
def withNodes (a : Arm) (ns : List Node) : Arm :=
  { a with nodes := ns }

end Arm

/-- A complete conditional of whole nodes. -/
structure NodeSpan where
  first : Arm
  rest : List Arm
  closer : Node
  opens : nodeRole first.head = .opens
  divides : ∀ a ∈ rest, nodeRole a.head = .divides
  closes : nodeRole closer = .closes
  enclosed : ∀ a ∈ first :: rest, isEnclosed 0 a.nodes

namespace NodeSpan

variable (s : NodeSpan)

/-- The branches. -/
def arms : List Arm :=
  s.first :: s.rest

/-- The nodes between the opener and the closer. -/
def body : List Node :=
  s.first.nodes ++ s.rest.flatMap Arm.all

/-- All nodes of the conditional. -/
def nodes : List Node :=
  s.first.head :: (s.body ++ [s.closer])

/-- The conditions of the branches. -/
def conditions : List (Option Text) :=
  s.arms.map Arm.condition

/-- The number of the branch that is selected, if one is. -/
def selected? (fields : Condition.Fields) : Except Fault (Option Nat) :=
  (selectFirst fields (·.1.condition) s.arms.zipIdx).map fun (selected, _) => selected.map (·.2)

theorem mem_of_mem_modify {i : Nat} {ns : List Node} {arms : List Arm} {a : Arm}
    (h : a ∈ arms.modify i (·.withNodes ns)) : a ∈ arms ∨ ∃ b ∈ arms, a = b.withNodes ns := by
  induction arms generalizing i with
  | nil => simp at h
  | cons b arms ih =>
    cases i with
    | zero =>
      rw [List.modify_zero_cons] at h
      rcases List.mem_cons.1 h with rfl | h
      · exact .inr ⟨b, List.mem_cons_self, rfl⟩
      · exact .inl (List.mem_cons_of_mem b h)
    | succ i =>
      rw [List.modify_succ_cons] at h
      rcases List.mem_cons.1 h with rfl | h
      · exact .inl List.mem_cons_self
      · rcases ih h with h | ⟨b', hb, he⟩
        · exact .inl (List.mem_cons_of_mem b h)
        · exact .inr ⟨b', List.mem_cons_of_mem b hb, he⟩

/-- The conditional with other nodes in a branch. -/
def withBranch (i : Nat) (ns : List Node) (h : isEnclosed 0 ns) : NodeSpan :=
  match i with
  | 0 =>
    { s with
      first := s.first.withNodes ns
      opens := s.opens
      enclosed := fun a ha => by
        rcases List.mem_cons.1 ha with rfl | ha
        · exact h
        · exact s.enclosed a (List.mem_cons_of_mem s.first ha) }
  | i + 1 =>
    { s with
      rest := s.rest.modify i (·.withNodes ns)
      divides := fun a ha => by
        rcases mem_of_mem_modify ha with ha | ⟨b, hb, rfl⟩
        · exact s.divides a ha
        · exact s.divides b hb
      enclosed := fun a ha => by
        rcases List.mem_cons.1 ha with rfl | ha
        · exact s.enclosed s.first List.mem_cons_self
        · rcases mem_of_mem_modify ha with ha | ⟨b, hb, rfl⟩
          · exact s.enclosed a (List.mem_cons_of_mem s.first ha)
          · exact h }

variable {s}

@[simp] theorem arms_withBranch (i : Nat) (ns : List Node) (h : isEnclosed 0 ns) :
    (s.withBranch i ns h).arms = s.arms.modify i (·.withNodes ns) := by
  cases i <;> rfl

@[simp] theorem head_withBranch (i : Nat) (ns : List Node) (h : isEnclosed 0 ns) :
    (s.withBranch i ns h).first.head = s.first.head := by
  cases i <;> rfl

@[simp] theorem closer_withBranch (i : Nat) (ns : List Node) (h : isEnclosed 0 ns) :
    (s.withBranch i ns h).closer = s.closer := by
  cases i <;> rfl

theorem map_condition_modify (arms : List Arm) (i : Nat) (ns : List Node) :
    (arms.modify i (·.withNodes ns)).map Arm.condition = arms.map Arm.condition := by
  induction arms generalizing i with
  | nil => simp
  | cons a arms ih =>
    cases i with
    | zero => rfl
    | succ i => rw [List.modify_succ_cons, List.map_cons, List.map_cons, ih]

@[simp] theorem conditions_withBranch (i : Nat) (ns : List Node) (h : isEnclosed 0 ns) :
    (s.withBranch i ns h).conditions = s.conditions := by
  rw [conditions, arms_withBranch, map_condition_modify, conditions]

/-! ## The borders of a conditional -/

theorem untilEnd_arms {arms : List Arm} (hd : ∀ a ∈ arms, nodeRole a.head = .divides)
    (he : ∀ a ∈ arms, isEnclosed 0 a.nodes) (k : Nat) (rest : List Node) :
    untilEnd k (arms.flatMap Arm.all ++ rest) =
      (untilEnd k rest).map fun (body, after) => (arms.flatMap Arm.all ++ body, after) := by
  induction arms with
  | nil => simp
  | cons a arms ih =>
    have hr := hd a List.mem_cons_self
    have henc := untilEnd_enclosed (he a List.mem_cons_self) k (arms.flatMap Arm.all ++ rest)
    rw [Nat.zero_add] at henc
    rw [List.flatMap_cons, List.append_assoc, Arm.all, List.cons_append,
      untilEnd_inside (by simp [hr]) (by simp [hr]), henc,
      ih (fun b hb => hd b (List.mem_cons_of_mem a hb)) fun b hb => he b (List.mem_cons_of_mem a hb)]
    simp [Option.map_map, Function.comp_def]

theorem untilEnd_body (s : NodeSpan) (k : Nat) (rest : List Node) :
    untilEnd k (s.body ++ rest) =
      (untilEnd k rest).map fun (body, after) => (s.body ++ body, after) := by
  have henc := untilEnd_enclosed (s.enclosed s.first List.mem_cons_self) k
    (s.rest.flatMap Arm.all ++ rest)
  rw [Nat.zero_add] at henc
  rw [body, List.append_assoc, henc,
    untilEnd_arms s.divides fun a ha => s.enclosed a (List.mem_cons_of_mem s.first ha)]
  simp [Option.map_map, Function.comp_def]

/-- The end of a conditional is not looked for in one inside it. -/
theorem untilEnd_nodes (s : NodeSpan) (k : Nat) (rest : List Node) :
    untilEnd k (s.nodes ++ rest) =
      (untilEnd k rest).map fun (body, after) => (s.nodes ++ body, after) := by
  rw [nodes, List.cons_append, List.append_assoc, untilEnd_opens s.opens, untilEnd_body,
    List.singleton_append, untilEnd_closes_succ s.closes]
  simp [Option.map_map, Function.comp_def]

theorem divide_arms_inside {arms : List Arm} (hd : ∀ a ∈ arms, nodeRole a.head = .divides)
    (he : ∀ a ∈ arms, isEnclosed 0 a.nodes) (condition : Option Text) (k : Nat)
    (rest : List Node) :
    divide condition ((k + 1 : Nat) : Int) (arms.flatMap Arm.all ++ rest) =
      keepNodes (arms.flatMap Arm.all) (divide condition ((k + 1 : Nat) : Int) rest) := by
  induction arms with
  | nil => simp [keepNodes]
  | cons a arms ih =>
    have hr := hd a List.mem_cons_self
    have henc := divide_enclosed (he a List.mem_cons_self) condition (k + 1)
      (arms.flatMap Arm.all ++ rest)
    rw [Nat.zero_add] at henc
    rw [List.flatMap_cons, List.append_assoc, Arm.all, List.cons_append,
      divide_inside (by simp [hr]) (by simp [hr]) (fun _ => by omega), henc,
      ih (fun b hb => hd b (List.mem_cons_of_mem a hb)) fun b hb => he b (List.mem_cons_of_mem a hb),
      ← keepNodes_append]
    rfl

/-- A conditional divides none around it. -/
theorem divide_nodes (s : NodeSpan) (condition : Option Text) (k : Nat) (rest : List Node) :
    divide condition (k : Int) (s.nodes ++ rest) = keepNodes s.nodes (divide condition (k : Int) rest) := by
  have henc := divide_enclosed (s.enclosed s.first List.mem_cons_self) condition (k + 1)
    (s.rest.flatMap Arm.all ++ s.closer :: rest)
  rw [Nat.zero_add] at henc
  have hinside := divide_arms_inside s.divides
    (fun a ha => s.enclosed a (List.mem_cons_of_mem s.first ha)) condition k (s.closer :: rest)
  rw [divide_closes s.closes] at hinside
  rw [nodes, body, List.cons_append, List.append_assoc, List.append_assoc, divide_opens s.opens,
    List.singleton_append, ← Int.natCast_succ, henc, hinside, Int.natCast_succ,
    Int.add_sub_cancel]
  simp [keepNodes]

/-- The branches of a conditional are those that it is made of. -/
theorem divide_body (s : NodeSpan) :
    divide (nodeCondition s.first.head) 0 s.body = s.arms.map fun a => ⟨a.condition, a.nodes⟩ := by
  have harms : ∀ (a : Arm) (arms : List Arm), (∀ b ∈ arms, nodeRole b.head = .divides) →
      (∀ b ∈ a :: arms, isEnclosed 0 b.nodes) →
      divide a.condition 0 (a.nodes ++ arms.flatMap Arm.all) =
        (a :: arms).map fun b => ⟨b.condition, b.nodes⟩ := by
    intro a arms hd he
    induction arms generalizing a with
    | nil =>
      have henc := divide_enclosed (he a List.mem_cons_self) a.condition 0 []
      simpa [divide, keepNodes_cons] using henc
    | cons b arms ih =>
      have henc := divide_enclosed (he a List.mem_cons_self) a.condition 0
        (b.head :: (b.nodes ++ arms.flatMap Arm.all))
      have hrest := ih b (fun x hx => hd x (List.mem_cons_of_mem b hx))
        fun x hx => he x (List.mem_cons_of_mem a hx)
      rw [Int.ofNat_zero, divide_divides (hd b List.mem_cons_self), keepNodes_cons] at henc
      rw [List.map_cons, ← hrest, List.flatMap_cons, Arm.all]
      simpa [Arm.condition] using henc
  exact harms s.first s.rest s.divides s.enclosed

end NodeSpan

/-- A closer ends the body. What is left of the body is enclosed up to the next divider, where further
branches begin. -/
def Parted (opened : Nat) (ns body after : List Node) : Prop :=
  ∃ closer, nodeRole closer = .closes ∧ ns = body ++ closer :: after ∧
    ∃ xs, ∃ arms : List Arm, body = xs ++ arms.flatMap Arm.all ∧ isEnclosed opened xs ∧
      ∀ a ∈ arms, nodeRole a.head = .divides ∧ isEnclosed 0 a.nodes

theorem Parted.cons {k opened : Nat} {n : Node} {ns body after : List Node}
    (h : Parted k ns body after) (hn : ∀ xs, isEnclosed k xs → isEnclosed opened (n :: xs)) :
    Parted opened (n :: ns) (n :: body) after := by
  obtain ⟨closer, hc, rfl, xs, arms, rfl, hx, ha⟩ := h
  exact ⟨closer, hc, rfl, n :: xs, arms, rfl, hn xs hx, ha⟩

theorem Parted.divide {n : Node} {ns body after : List Node} (h : Parted 0 ns body after)
    (hn : nodeRole n = .divides) : Parted 0 (n :: ns) (n :: body) after := by
  obtain ⟨closer, hc, rfl, xs, arms, rfl, hx, ha⟩ := h
  refine ⟨closer, hc, rfl, [], ⟨n, xs⟩ :: arms, rfl, rfl, ?_⟩
  intro a hm
  rcases List.mem_cons.1 hm with rfl | hm
  · exact ⟨hn, hx⟩
  · exact ha a hm

theorem parted_of_untilEnd {opened : Nat} {ns body after : List Node}
    (h : untilEnd opened ns = some (body, after)) : Parted opened ns body after := by
  induction ns generalizing opened body with
  | nil => cases h
  | cons n ns ih =>
    have step : ∀ {k}, (untilEnd k ns).map (fun (body, after) => (n :: body, after)) = some (body, after) →
        ∃ b, body = n :: b ∧ Parted k ns b after := by
      intro k h
      obtain ⟨⟨b, a⟩, hb, he⟩ := Option.map_eq_some_iff.1 h
      obtain ⟨rfl, rfl⟩ : n :: b = body ∧ a = after := by simpa using he
      exact ⟨b, rfl, ih hb⟩
    cases hr : nodeRole n with
    | opens =>
      rw [untilEnd_opens hr] at h
      obtain ⟨b, rfl, hb⟩ := step h
      exact hb.cons fun xs hx => by simpa [isEnclosed, hr] using hx
    | closes =>
      cases opened with
      | zero =>
        rw [untilEnd_closes_zero hr] at h
        obtain ⟨rfl, rfl⟩ : [] = body ∧ ns = after := by simpa using h
        exact ⟨n, hr, rfl, [], [], rfl, rfl, by simp⟩
      | succ opened =>
        rw [untilEnd_closes_succ hr] at h
        obtain ⟨b, rfl, hb⟩ := step h
        exact hb.cons fun xs hx => by simpa [isEnclosed, hr] using hx
    | divides =>
      rw [untilEnd_inside (by simp [hr]) (by simp [hr])] at h
      obtain ⟨b, rfl, hb⟩ := step h
      cases opened with
      | zero => exact hb.divide hr
      | succ opened => exact hb.cons fun xs hx => by simpa [isEnclosed, hr] using hx
    | plain =>
      rw [untilEnd_inside (by simp [hr]) (by simp [hr])] at h
      obtain ⟨b, rfl, hb⟩ := step h
      exact hb.cons fun xs hx => by simpa [isEnclosed, hr] using hx

/-- **Each conditional that has an end is one**: an opener, with the nodes up to the marker that ends
the conditional. -/
theorem exists_span_of_untilEnd {n : Node} {ns body after : List Node} (hn : nodeRole n = .opens)
    (h : untilEnd 0 ns = some (body, after)) :
    ∃ s : NodeSpan, s.first.head = n ∧ s.body = body ∧ n :: ns = s.nodes ++ after := by
  obtain ⟨closer, hc, rfl, xs, arms, rfl, hx, ha⟩ := parted_of_untilEnd h
  refine ⟨⟨⟨n, xs⟩, arms, closer, hn, fun a hm => (ha a hm).1, hc, ?_⟩, rfl, rfl, ?_⟩
  · intro a hm
    rcases List.mem_cons.1 hm with rfl | hm
    · exact hx
    · exact (ha a hm).2
  · simp [NodeSpan.nodes, NodeSpan.body]

/-! ## What a conditional resolves to -/

section Resolving

variable {ι : Type} {fields : Condition.Fields}

/-- **A conditional resolves to its selected branch**, and the nodes after it follow. -/
theorem resolveNodes_span (s : NodeSpan) (rest : List Node) :
    (resolveNodes fields (s.nodes ++ rest) : Merging ι (List Node)) = do
      let ws ← .ofFault (ask fields s.conditions)
      Merging.report ws [] ()
      let kept ← (s.arms.find? fun a => conditionHolds fields a.condition).elim (pure [])
        fun a => resolveNodes fields a.nodes
      return kept ++ (← resolveNodes fields rest) := by
  have hend : untilEnd 0 (s.body ++ s.closer :: rest) = some (s.body, rest) := by
    rw [NodeSpan.untilEnd_body, untilEnd_closes_zero s.closes]
    simp
  have hfind : ((divide (nodeCondition s.first.head) 0 s.body).find? fun b =>
        conditionHolds fields b.condition).elim (pure []) (fun b => resolveNodes fields b.nodes) =
      ((s.arms.find? fun a => conditionHolds fields a.condition).elim (pure [])
        fun a => resolveNodes fields a.nodes : Merging ι (List Node)) := by
    rw [NodeSpan.divide_body, List.find?_map]
    simp only [Function.comp_def]
    cases s.arms.find? fun a => conditionHolds fields a.condition <;> rfl
  rw [NodeSpan.nodes, List.cons_append, List.append_assoc, List.singleton_append,
    resolveNodes_opens s.opens hend, ← bind_assoc,
    selectBranch_bind _ (pure []) fun b => resolveNodes fields b.nodes, hfind, NodeSpan.divide_body]
  simp only [bind_assoc, List.map_map]
  rfl

/-- A branch is selected if it is the first whose condition holds, and no fault is met. -/
theorem NodeSpan.selected?_eq (s : NodeSpan) :
    s.selected? fields =
      (ask fields s.conditions).map fun _ => s.arms.findIdx? fun a => conditionHolds fields a.condition := by
  have hconditions : s.arms.zipIdx.map (fun x => x.1.condition) = s.conditions := by
    rw [NodeSpan.conditions, ← List.zipIdx_map_fst 0 s.arms, List.map_map]
    simp [Function.comp_def]
  rw [selected?, selectFirst_eq, hconditions, List.findIdx?_eq_fst_find?_zipIdx]
  cases ask fields s.conditions <;> rfl

theorem find?_modify {α : Type} {p : α → Bool} {f : α → α} (hf : ∀ a, p (f a) = p a) {i : Nat}
    {l : List α} (h : l.findIdx? p ≠ some i) : (l.modify i f).find? p = l.find? p := by
  induction l generalizing i with
  | nil => simp
  | cons a l ih =>
    cases i with
    | zero =>
      have ha : p a = false := by
        rw [List.findIdx?_cons] at h
        by_contra ht
        simp [ht] at h
      rw [List.modify_zero_cons, List.find?_cons, List.find?_cons, hf, ha]
    | succ i =>
      rw [List.modify_succ_cons, List.find?_cons, List.find?_cons]
      cases ha : p a with
      | true => rfl
      | false =>
        rw [List.findIdx?_cons, ha] at h
        exact ih fun he => h (by simp [he])

/-- **The nodes in a branch that is not selected do not matter.** -/
theorem resolveNodes_withBranch (s : NodeSpan) {i : Nat} (hi : s.selected? fields ≠ .ok (some i))
    {ns : List Node} (hn : isEnclosed 0 ns) {rest rest' : List Node}
    (hr : (resolveNodes fields rest : Merging ι (List Node)) = resolveNodes fields rest') :
    (resolveNodes fields (s.nodes ++ rest) : Merging ι (List Node)) =
      resolveNodes fields ((s.withBranch i ns hn).nodes ++ rest') := by
  rw [resolveNodes_span, resolveNodes_span, NodeSpan.conditions_withBranch, hr]
  cases hask : ask fields s.conditions with
  | error f => rfl
  | ok ws =>
    have hfind : s.arms.findIdx? (fun a => conditionHolds fields a.condition) ≠ some i := by
      intro he
      rw [NodeSpan.selected?_eq, hask] at hi
      exact hi (congrArg Except.ok he)
    rw [NodeSpan.arms_withBranch, find?_modify (f := (·.withNodes ns)) (fun a => rfl) hfind]

end Resolving

end MailMerge.Conditional
