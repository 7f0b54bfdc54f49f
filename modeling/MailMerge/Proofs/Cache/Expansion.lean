import MailMerge.Proofs.Cache.Section
import MailMerge.Proofs.Section.Within

/-!
# Expanding sections with a cache gives what it gives without one

A list of blocks is walked from its start to its end, and so are the rows of a table. Only nodes that
stand after the place of the walk are looked at, and these have not been written into since the texts of
the document were forgotten last, or ever. A copy has keys of its own, for which nothing is kept. So the
texts that are kept for written nodes, which are no longer theirs, are never asked for.

**`Cached.agrees_expandBlocks`**: on ready nodes the stage has the outcome that it has without a cache.
-/

namespace MailMerge

open Section (BlockTemplate Slot)

variable {settings : Settings} {c : Context} {nested : Bool}

/-! ## The walk without a cache -/

section Plain

variable {α β γ : Type}

theorem Merging.forEach_map (f : β → Merging PendingImage γ) (g : α → β) (xs : List α) :
    Merging.forEach f (xs.map g) = Merging.forEach (fun x => f (g x)) xs := by
  unfold Merging.forEach
  rw [List.zipIdx_map, List.mapM_map]
  rfl

theorem Merging.forEach_attach (f : α → Merging PendingImage γ) (xs : List α) :
    Merging.forEach (fun x => f x.val) xs.attach = Merging.forEach f xs := by
  conv_rhs => rw [← List.attach_map_subtype_val xs]
  exact (Merging.forEach_map f Subtype.val xs.attach).symm

theorem Merging.shifted_map (f : α → β) (x : Merging PendingImage α) (count : Nat) :
    (f <$> x).shifted count = f <$> x.shifted count := by
  rw [map_eq_pure_bind, map_eq_pure_bind, Merging.shifted_bind]
  rfl

/-- The expansion of rows speaks of the rows only by their nodes. -/
theorem Section.expandRows_map (node : β → Node) (g : α → β) (xs : List α) :
    Section.expandRows settings c nested node (xs.map g) =
      List.map (Slot.map g) <$> Section.expandRows settings c nested (fun x => node (g x)) xs := by
  induction hn : xs.length using Nat.strongRecOn generalizing xs with
  | ind n ih =>
    cases xs with
    | nil =>
      rw [List.map_nil, Section.expandRows, Section.expandRows]
      rfl
    | cons x xs =>
      have hlt : ∀ ys : List α, ys.length ≤ xs.length → ys.length < n := by
        intro ys hle
        rw [← hn]
        exact Nat.lt_succ_of_le hle
      rw [List.map_cons, Section.expandRows, Section.expandRows]
      cases Section.rowOpener? (node (g x)) with
      | none =>
        dsimp only
        rw [ih _ (hlt xs (Nat.le_refl _)) xs rfl, Merging.shifted_map, map_bind, bind_map_left]
        exact bind_congr fun rest => (map_pure _ _).symm
      | some opener =>
        have htexts : (g x :: xs.map g).map (fun y => (node y).text) =
            (x :: xs).map fun y => (node (g y)).text := by
          rw [← List.map_cons, List.map_map]
          rfl
        have hrows : ∀ count, (g x :: (xs.map g).take count).map node =
            (x :: xs.take count).map fun y => node (g y) := by
          intro count
          rw [← List.map_take, ← List.map_cons, List.map_map]
          rfl
        dsimp only
        rw [htexts, map_bind]
        refine bind_congr fun found => ?_
        rw [hrows, map_bind]
        refine bind_congr fun made => ?_
        rw [← List.map_drop, ih _ (hlt (xs.drop found.1) (by simp)) _ rfl, Merging.shifted_map, map_bind,
          bind_map_left]
        refine bind_congr fun rest => ?_
        rw [map_pure, List.map_append, List.map_map]
        rfl

/-- The row in a slot, with the sections in its cells expanded if it is one that was there. -/
def Section.settledSlot (settings : Settings) (c : Context) (nested : Bool) :
    Slot Node → Merging PendingImage Node
  | .made row => pure row
  | .kept row => Section.expandRow settings c nested row

/-- The rows of a table may be given by other items. -/
theorem Section.expandTable_map (g : α → Node) (xs : List α) :
    Section.expandTable settings c nested (xs.map g) =
      (Section.expandRows settings c nested g xs >>=
        Merging.forEach fun slot => settledSlot settings c nested (slot.map g)) := by
  have hrows : ∀ rows : List Node, Section.expandTable settings c nested rows =
      (Section.expandRows settings c nested id rows >>=
        Merging.forEach (settledSlot settings c nested)) := by
    intro rows
    conv_rhs => rw [← List.attach_map_subtype_val rows, Section.expandRows_map, bind_map_left]
    rw [Section.expandTable]
    refine bind_congr fun slots => ?_
    rw [Merging.forEach_map]
    refine congrArg (fun f => Merging.forEach f slots) (funext fun slot => ?_)
    cases slot <;> rfl
  rw [hrows, Section.expandRows_map, bind_map_left]
  exact bind_congr fun slots => Merging.forEach_map _ _ _

theorem Section.expandRow_row (attributes : Text) (cells : List Node) :
    Section.expandRow settings c nested (.row attributes cells false) = do
      let cells ← Merging.forEach (Section.expandCell settings c nested) cells
      return .row attributes cells := by
  rw [Section.expandRow, Merging.forEach_attach]

end Plain

namespace Cached

/-! ## Rows -/

/-- The results are the same. -/
def Same {α : Type} (_ : Store) (a b : α) : Prop :=
  a = b

theorem rendered_forget (n : Keyed) : n.forget.rendered = n.head.rendered := by
  obtain ⟨key, head, inside⟩ := n
  cases head <;> rfl

theorem looks_rowOpener? {row : Keyed} {ns : List Keyed} (hrow : row ∈ Keyed.allOf ns) :
    Looks ns (rowOpener? row : Cached PendingImage _) (Section.rowOpener? row.forget) := by
  unfold rowOpener? Section.rowOpener?
  rw [rendered_forget]
  split
  · exact .pure none
  · exact (Looks.read hrow).bind (.pure _)

theorem looks_blockSection? (opener : Marker) {ms ns : List Keyed}
    (h : ∀ m ∈ ms, m ∈ Keyed.allOf ns) :
    Looks ns (closing? opener readBlock ms : Cached PendingImage _)
      (Section.blockSection? opener (Keyed.forgetAll ms)) := by
  rw [Section.blockSection?, Keyed.forgetAll_eq_map, List.map_map]
  exact looks_closing? fun m hm => looks_readBlock (h m hm)

section Rows

variable {α : Type} {σ : Store} {ns : List Keyed}

theorem agrees_rowSection (opener : Marker) {rows : List Keyed} (h : Ready σ ns)
    (hrows : ∀ row ∈ rows, row ∈ Keyed.allOf ns) :
    Agrees (Keyed.keys ns) σ (rowSection opener rows : Cached PendingImage _)
      (Section.rowSection opener (rows.map fun row => row.forget.text))
      fun σ' a b => a = b ∧ Ready σ' ns := by
  unfold rowSection Section.rowSection
  refine .look (looks_closing? fun row hrow => Looks.read (hrows row hrow)) h (List.Subset.refl _)
    fun σ₁ _ h₁ => ?_
  cases Section.closingText? opener (rows.map fun row => row.forget.text) with
  | some found => exact .pure ⟨rfl, h₁⟩
  | none =>
    refine (Agrees.lift (R := fun σ' _ _ => σ' = σ₁) (K := []) _ fun _ => rfl).bind (L := []) ?_
      (List.nil_subset _) (List.nil_subset _)
    rintro σ₂ _ _ - rfl
    exact .pure ⟨rfl, h₁⟩

/-- The row in a slot that was there, with its key. -/
def slotRows (node : α → Keyed) : Slot α → List Keyed
  | .kept row => [node row]
  | .made _ => []

/-- The slots are the same, the rows in no section come in order, and all nodes are as ready as they
were. -/
structure Sorted (ns : List Keyed) (node : α → Keyed) (xs : List α) (σ : Store)
    (found : List (Slot α) × Bool) (slots : List (Slot α)) : Prop where
  same : found.1 = slots
  ready : Ready σ ns
  kept : (slots.flatMap (slotRows node)).Sublist (xs.map node)

theorem agrees_expandRows (node : α → Keyed) (xs : List α) (h : Ready σ ns)
    (hxs : ∀ x ∈ xs, node x ∈ Keyed.allOf ns) :
    Agrees (Keyed.keys ns) σ (expandRows settings c nested node xs)
      (Section.expandRows settings c nested (fun x => (node x).forget) xs) (Sorted ns node xs) := by
  induction hn : xs.length using Nat.strongRecOn generalizing xs σ with
  | ind n ih =>
    cases xs with
    | nil =>
      rw [expandRows, Section.expandRows]
      exact .pure ⟨rfl, h, .slnil⟩
    | cons x xs =>
      have ih : ∀ ys : List α, ys.Sublist xs → ∀ σ', Ready σ' ns → _ := fun ys hys σ' h' =>
        ih _ (by rw [← hn]; exact Nat.lt_succ_of_le hys.length_le) ys h'
          (fun y hy => hxs y (List.mem_cons_of_mem x (hys.subset hy))) rfl
      rw [expandRows, Section.expandRows]
      refine .look (looks_rowOpener? (hxs x List.mem_cons_self)) h (List.Subset.refl _)
        fun σ₁ _ h₁ => ?_
      cases Section.rowOpener? (node x).forget with
      | none =>
        refine ((ih xs (.refl _) σ₁ h₁).shifted 1).bind (L := [])
          (fun σ₂ found slots _ hfound => .pure ⟨?_, hfound.ready, ?_⟩) (List.Subset.refl _)
          (List.nil_subset _)
        · rw [hfound.same]
        · exact hfound.kept.cons_cons (node x)
      | some opener =>
        have hrows : ∀ row ∈ (x :: xs).map node, row ∈ Keyed.allOf ns := fun row hrow => by
          obtain ⟨y, hy, rfl⟩ := List.mem_map.1 hrow
          exact hxs y hy
        have hsection := agrees_rowSection opener h₁ hrows
        rw [List.map_map] at hsection
        refine hsection.bind (L := Keyed.keys ns) ?_ (List.Subset.refl _) (List.Subset.refl _)
        rintro σ₂ ⟨count, closer⟩ _ - ⟨rfl, h₂⟩
        dsimp only
        refine (Agrees.lift (R := fun σ' a b => σ' = σ₂ ∧ a = b) (K := []) _ fun _ => ⟨rfl, rfl⟩).bind
          (L := Keyed.keys ns) ?_ (List.nil_subset _) (List.Subset.refl _)
        rintro σ₃ made _ - ⟨rfl, rfl⟩
        refine ((ih (xs.drop count) (List.drop_sublist count xs) _ h₂).shifted made.length).bind (L := [])
          (fun σ₄ found slots _ hfound => .pure ⟨?_, hfound.ready, ?_⟩) (List.Subset.refl _)
          (List.nil_subset _)
        · rw [hfound.same]
        · have hmade : (made.map Slot.made).flatMap (slotRows node) = [] := by
            rw [List.flatMap_map]
            exact List.flatMap_eq_nil_iff.2 fun _ _ => rfl
          rw [List.flatMap_append, hmade, List.nil_append]
          exact (hfound.kept.trans ((List.drop_sublist count xs).map node)).cons (node x)

end Rows

/-! ## Blocks -/

theorem keys_inside_sublist (n : Keyed) :
    (Keyed.keys n.inside).Sublist (Keyed.keys [n]) := by
  rw [Keyed.keys_singleton]
  exact List.sublist_cons_self _ _

section Parts

variable {σ : Store} {α β : Type}

theorem keys_subset_flatMap (nodesOf : α → List Keyed) {xs : List α} {x : α} (hx : x ∈ xs) :
    (Keyed.keys (nodesOf x)).Sublist (Keyed.keys (xs.flatMap nodesOf)) :=
  Keyed.keys_sublist (Keyed.allOf_sublist (List.sublist_flatten_of_mem (List.mem_map_of_mem hx)))

/-- Of distinct nodes, those of one item have no key of another item. -/
theorem pairwise_disjoint {xs : List α} {nodesOf : α → List Keyed}
    (h : (Keyed.keys (xs.flatMap nodesOf)).Nodup) :
    xs.Pairwise fun x y => ∀ k ∈ Keyed.keys (nodesOf y), k ∉ Keyed.keys (nodesOf x) := by
  induction xs with
  | nil => exact .nil
  | cons x xs ih =>
    rw [List.flatMap_cons, Keyed.keys_append, List.nodup_append] at h
    exact .cons (fun y hy k hk hk' => h.2.2 k hk' k ((keys_subset_flatMap nodesOf hy).subset hk) rfl) (ih h.2.1)

/-- Items that stand for ready nodes are worked on in turn. -/
theorem agrees_forEach {xs : List α} (nodesOf : α → List Keyed) {f : α → Cached PendingImage β}
    {g : α → Merging PendingImage β} (h : Ready σ (xs.flatMap nodesOf))
    (hf : ∀ x ∈ xs, ∀ σ', Ready σ' (nodesOf x) → Agrees (Keyed.keys (nodesOf x)) σ' (f x) (g x) Same) :
    Agrees (Keyed.keys (xs.flatMap nodesOf)) σ (forEach f xs) (Merging.forEach g xs) Same := by
  refine .forEach (P := fun σ' x => Ready σ' (nodesOf x)) (K := fun x => Keyed.keys (nodesOf x)) hf
    (fun x hx => (keys_subset_flatMap nodesOf hx).subset) ?_ fun x hx => ?_
  · exact (pairwise_disjoint h.distinct).imp fun hd σ₁ σ₂ hy hs => hy.step hs hd
  · exact h.sublist
      (Keyed.allOf_sublist (List.sublist_flatten_of_mem (List.mem_map_of_mem hx)))

/-- Ready nodes are worked on in turn. -/
theorem agrees_forEach_nodes {ns : List Keyed} {f : Keyed → Cached PendingImage β}
    {g : Node → Merging PendingImage β} (h : Ready σ ns)
    (hf : ∀ n ∈ ns, ∀ σ', Ready σ' [n] → Agrees (Keyed.keys [n]) σ' (f n) (g n.forget) Same) :
    Agrees (Keyed.keys ns) σ (forEach (fun n => f n.val) ns.attach)
      (Merging.forEach g (Keyed.forgetAll ns)) Same := by
  have hnodes : ns.attach.flatMap (fun n => [n.val]) = ns := by
    rw [← List.map_eq_flatMap, List.attach_map_subtype_val]
  have hforget : Keyed.forgetAll ns = ns.attach.map fun n => n.val.forget := by
    rw [Keyed.forgetAll_eq_map, List.attach_map_val]
  rw [hforget, Merging.forEach_map]
  rw [← hnodes] at h
  have := agrees_forEach (fun n : { n // n ∈ ns } => [n.val]) h fun n _ σ' h' => hf n.val n.property σ' h'
  rwa [hnodes] at this

theorem agrees_followedBy (ms ns : List Keyed) {x y : Cached PendingImage (List Node × Bool)}
    {x' y' : Merging PendingImage (List Node)} (h : Ready σ (ms ++ ns))
    (hx : Agrees (Keyed.keys ms) σ x x' fun _ a b => a.1 = b)
    (hy : ∀ σ', Ready σ' ns → Agrees (Keyed.keys ns) σ' y y' fun _ a b => a.1 = b) :
    Agrees (Keyed.keys (ms ++ ns)) σ (followedBy x y) (Merging.followedBy x' y')
      fun _ a b => a.1 = b := by
  rw [Keyed.keys_append]
  refine hx.bind (fun σ₁ a b hs hab => ?_) (List.subset_append_left _ _) (List.Subset.refl _)
  subst hab
  refine ((hy σ₁ (h.rest hs)).shifted a.1.length).bind (L := []) (fun σ₂ d e _ hde => ?_)
    (List.subset_append_right _ _) (List.nil_subset _)
  subst hde
  exact .pure rfl

theorem agrees_settled {K : List Nat} {x : Cached PendingImage (List Node × Bool)}
    {y : Merging PendingImage (List Node)} (h : Agrees K σ x y fun _ a b => a.1 = b) :
    Agrees K σ (settled x) y Same := by
  have hy : y = y >>= pure := (bind_pure y).symm
  rw [hy]
  refine h.bind (L := K) (fun σ₁ a b _ hab => ?_) (List.Subset.refl _) (List.Subset.refl _)
  dsimp only
  split
  · exact .invalidate (.pure hab)
  · exact .pure hab

end Parts

/-- The nodes may be used for the record: they are known, and for the first record ready. -/
def Usable (k : Nat) (σ : Store) (ns : List Keyed) : Prop :=
  Known σ ns ∧ (k = 0 → Ready σ ns)

/-- The blocks of a template are made for each record in turn. Only for the first one the nodes are used
that are there. -/
theorem agrees_sets {α β : Type} (records : List α) {templates : List β} (nodeOf : β → Keyed) {σ : Store}
    {f : α → Nat → β → Cached PendingImage Node} {g : α → Nat → β → Merging PendingImage Node}
    (hf : ∀ t ∈ templates, ∀ record k σ', Usable k σ' [nodeOf t] →
      Agrees (Keyed.keys [nodeOf t]) σ' (f record k t) (g record k t) Same)
    (h : Ready σ (templates.map nodeOf)) :
    Agrees (Keyed.keys (templates.map nodeOf)) σ
      (records.zipIdx.mapM fun (record, k) =>
        (forEach (f record k) templates).shifted (k * templates.length))
      (records.zipIdx.mapM fun (record, k) =>
        (Merging.forEach (g record k) templates).shifted (k * templates.length)) Same := by
  have hdisjoint := @pairwise_disjoint β templates (fun t => [nodeOf t]) <| by
    rw [← List.map_eq_flatMap]
    exact h.distinct
  have hlater : records.zipIdx.Pairwise fun x y => x.2 < y.2 := by
    rw [← List.pairwise_map (f := Prod.snd) (R := (· < ·)), List.zipIdx_map_snd]
    exact List.pairwise_lt_range'
  have hone : ∀ t ∈ templates, (Keyed.allOf [nodeOf t]).Sublist (Keyed.allOf (templates.map nodeOf)) :=
    fun t ht => Keyed.allOf_sublist (List.singleton_sublist.2 (List.mem_map_of_mem ht))
  refine .mapM (P := fun σ' (p : α × Nat) => Usable p.2 σ' (templates.map nodeOf))
    (K := fun _ => Keyed.keys (templates.map nodeOf)) (fun p _ σ' hp => ?_)
    (fun _ _ => List.Subset.refl _) ?_ fun p _ => ⟨h.toKnown, fun _ => h⟩
  · refine Agrees.shifted (.forEach (P := fun σ'' t => Usable p.2 σ'' [nodeOf t])
      (K := fun t => Keyed.keys [nodeOf t]) (fun t ht σ'' ht' => hf t ht p.1 p.2 σ'' ht')
      (fun t ht => (Keyed.keys_sublist (hone t ht)).subset) ?_ fun t ht => ?_) _
    · exact hdisjoint.imp fun hd σ₁ σ₂ hu hs => ⟨hu.1.step hs, fun hk => (hu.2 hk).step hs hd⟩
    · exact ⟨hp.1.sublist (Keyed.keys_sublist (hone t ht)), fun hk => (hp.2 hk).sublist (hone t ht)⟩
  · -- After the first record the nodes have been written into, but only copies of them are made.
    exact hlater.imp fun hlt σ₁ σ₂ hu hs => ⟨hu.1.step hs, fun hk => by omega⟩

/-- The blocks of a section are the same for all records. -/
theorem agrees_section {first : Keyed} {ns : List Keyed} {count : Nat} {opener closer : Marker}
    {σ : Store} (h : Ready σ (first :: ns.take (count + 1)))
    (hf : ∀ t ∈ captureBlocks opener closer first (ns.take count) ns[count]?, ∀ c k σ',
      Usable k σ' [t.2] → Agrees (Keyed.keys [t.2]) σ' (expandCopy settings c k t)
        (Section.expandCopy settings c k t.1) Same) :
    Agrees (Keyed.keys (first :: ns.take (count + 1))) σ
      (do
        let records ← lift (Section.records settings opener c nested)
        let templates := captureBlocks opener closer first (ns.take count) ns[count]?
        let sets ← records.zipIdx.mapM fun (record, k) =>
          (forEach (fun template => expandCopy settings (c.forRow record k) k template.val)
            templates.attach).shifted (k * templates.length)
        return (sets.flatten, true))
      (do
        let records ← Section.records settings opener c nested
        let templates := Section.captureBlocks opener closer first.forget
          ((Keyed.forgetAll ns).take count) (Keyed.forgetAll ns)[count]?
        let sets ← records.zipIdx.mapM fun (record, k) =>
          (Merging.forEach (fun template =>
            Section.expandCopy settings (c.forRow record k) k template.val)
            templates.attach).shifted (k * templates.length)
        return sets.flatten)
      fun _ a b => a.1 = b := by
  have htemplates : Section.captureBlocks opener closer first.forget ((Keyed.forgetAll ns).take count)
      (Keyed.forgetAll ns)[count]? =
        (captureBlocks opener closer first (ns.take count) ns[count]?).map Prod.fst := by
    rw [map_fst_captureBlocks, Keyed.forgetAll_take, Keyed.forgetAll_eq_map, List.getElem?_map]
  have hplain : ∀ (record : Value) (k : Nat),
      Merging.forEach (fun template => Section.expandCopy settings (c.forRow record k) k template.val)
        (Section.captureBlocks opener closer first.forget ((Keyed.forgetAll ns).take count)
          (Keyed.forgetAll ns)[count]?).attach =
      Merging.forEach (fun template => Section.expandCopy settings (c.forRow record k) k template.val.1)
        (captureBlocks opener closer first (ns.take count) ns[count]?).attach := by
    intro record k
    rw [Merging.forEach_attach, htemplates, Merging.forEach_map]
    exact (Merging.forEach_attach (fun t : BlockTemplate × Keyed =>
      Section.expandCopy settings (c.forRow record k) k t.1) _).symm
  have hnodes := map_snd_captureBlocks_sublist opener closer first ns count
  refine (Agrees.lift (R := fun σ' a b => σ' = σ ∧ a = b) (K := []) _ fun _ => ⟨rfl, rfl⟩).bind
    (L := Keyed.keys (first :: ns.take (count + 1))) ?_ (List.nil_subset _) (List.Subset.refl _)
  rintro σ₁ records _ - ⟨rfl, rfl⟩
  simp only [hplain]
  rw [htemplates, List.length_map, ← List.length_attach]
  rw [← List.attach_map_subtype_val (captureBlocks opener closer first (ns.take count) ns[count]?),
    List.map_map] at hnodes
  have hsub := Keyed.allOf_sublist hnodes
  have hsets := agrees_sets records (Prod.snd ∘ Subtype.val)
    (fun t _ record k σ' hu => hf t.val t.property (c.forRow record k) k σ' hu) (h.sublist hsub)
  refine hsets.bind (L := []) ?_ (Keyed.keys_sublist hsub).subset (List.nil_subset _)
  rintro σ₂ sets _ - rfl
  exact .pure rfl

mutual

/-- **On ready nodes the stage has the outcome that it has without a cache.** -/
theorem agrees_expandBlocks (c : Context) (nested : Bool) (σ : Store) : ∀ ns : List Keyed, Ready σ ns →
    Agrees (Keyed.keys ns) σ (expandBlocks settings c nested ns)
      (Section.expandBlocks settings c nested (Keyed.forgetAll ns)) fun _ a b => a.1 = b
  | [], _ => by
    rw [expandBlocks, Keyed.forgetAll, Section.expandBlocks]
    exact .pure rfl
  | .node key head inside :: ns, h => by
    have hrest : ∀ σ', Ready σ' ns → _ := fun σ' h' => agrees_expandBlocks c nested σ' ns h'
    have hstay : ∀ σ', Ready σ' (.node key head inside :: ns) → _ := fun σ' h' =>
      agrees_followedBy [.node key head inside] ns h'
        (.pure (a := ([(Keyed.node key head inside).forget], false)) rfl) hrest
    have hmem : ∀ m ∈ .node key head inside :: ns, m ∈ Keyed.allOf (.node key head inside :: ns) :=
      fun m hm => (Keyed.all_sublist_of_mem hm).subset (Keyed.mem_all m)
    rw [expandBlocks]
    cases head with
    | table attributes rows rendered =>
      cases rendered with
      | false =>
        have hinside : Ready σ inside := h.first.inside
        simp only [Keyed.forgetAll, Keyed.forget, Node.withChildren, Section.expandBlocks]
        refine agrees_followedBy [.node key _ inside] ns h ?_ hrest
        refine (agrees_expandTable c nested σ inside hinside).under 0 |>.bind (L := []) ?_
          (keys_inside_sublist (.node key _ inside)).subset (List.nil_subset _)
        rintro σ₁ made _ - rfl
        exact .pure rfl
      | true =>
        simp only [Keyed.forgetAll, Keyed.forget, Node.withChildren, Section.expandBlocks]
        exact hstay σ h
    | paragraph p rendered =>
      cases rendered with
      | false =>
        simp only [Keyed.forgetAll, Keyed.forget, Node.withChildren, Section.expandBlocks]
        refine .look (Looks.read (hmem _ List.mem_cons_self)) h (List.Subset.refl _) fun σ₁ _ h₁ => ?_
        simp only [Keyed.forget, Node.withChildren, Node.text]
        cases Section.firstOpener? p.text with
        | none => exact hstay σ₁ h₁
        | some opener =>
          refine .look (looks_blockSection? opener hmem) h₁ (List.Subset.refl _)
            fun σ₂ _ h₂ => ?_
          simp only [Keyed.forgetAll, Keyed.forget, Node.withChildren]
          rcases Section.blockSection? opener (.paragraph p :: Keyed.forgetAll ns) with
            _ | ⟨_ | count, closer⟩
          · refine (Agrees.lift (R := fun σ' _ _ => σ' = σ₂) (K := []) _ fun _ => rfl).bind
              (L := Keyed.keys (.node key (.paragraph p false) inside :: ns)) ?_ (List.nil_subset _)
              (List.Subset.refl _)
            rintro σ₃ _ _ - rfl
            exact hstay σ₃ h₂
          · refine agrees_followedBy [.node key (.paragraph p false) inside] ns h₂ ?_ hrest
            refine (Agrees.lift (R := Same) (K := []) _ fun _ => rfl).bind (L := []) ?_
              (List.nil_subset _) (List.nil_subset _)
            rintro σ₃ q _ - rfl
            split
            · exact .invalidate (.pure rfl)
            · exact .pure rfl
          · have hnodes : (.node key (.paragraph p false) inside :: ns.take (count + 1)) ++
                ns.drop (count + 1) = .node key (.paragraph p false) inside :: ns := by
              rw [List.cons_append, List.take_append_drop]
            have h₃ := h₂
            rw [← hnodes] at h₃
            have hsection := @agrees_section settings c nested _ ns count opener closer σ₂
              (h₃.sublist (Keyed.allOf_sublist (List.sublist_append_left _ _)))
              fun t ht c k σ' hu => agrees_expandCopy c k σ' t.1 t.2
                (fun m hm => eq_forget_of_mem_captureBlocks (by rw [← hm]; exact ht)) hu
            have hall := agrees_followedBy _ _ h₃ hsection fun σ' h' =>
              agrees_expandBlocks c nested σ' (ns.drop (count + 1)) h'
            rw [hnodes, Keyed.forgetAll_drop] at hall
            exact hall
      | true =>
        simp only [Keyed.forgetAll, Keyed.forget, Node.withChildren, Section.expandBlocks]
        exact hstay σ h
    | row | cell | pageBreak | verbatim =>
      simp only [Keyed.forgetAll, Keyed.forget, Node.withChildren, Section.expandBlocks]
      exact hstay σ h
  termination_by ns => Keyed.sizes ns
  decreasing_by
    · simp only [Keyed.sizes]; omega
    · have := size_of_mem_captureBlocks ht
      simpa only [Keyed.sizes, Keyed.size] using this
    · have := Keyed.sizes_drop_le ns (count + 1)
      simp only [Keyed.sizes]
      omega
    · simp only [Keyed.sizes, Keyed.size]; omega

theorem agrees_expandCopy (c : Context) (k : Nat) (σ : Store) (t : BlockTemplate) :
    ∀ n : Keyed, (∀ m, t = .node m → m = n.forget) → Usable k σ [n] →
      Agrees (Keyed.keys [n]) σ (expandCopy settings c k (t, n)) (Section.expandCopy settings c k t)
        Same
  | .node key head inside, ht, h => by
    rw [expandCopy]
    cases t with
    | paragraph p snapshot =>
      rw [Section.expandCopy]
      exact .lift _ fun _ => rfl
    | node m =>
      obtain rfl := ht m rfl
      have hcopy : ∀ base σ', Ready σ' [(Keyed.node key head inside).moved base] →
          Agrees (Keyed.keys [(Keyed.node key head inside).moved base]) σ'
            (match ((Keyed.node key head inside).moved base).head with
              | .table attributes _ false => do
                let rows ← expandTable settings c true ((Keyed.node key head inside).moved base).inside
                lift (Section.finishTable settings c attributes rows)
              | _ => pure (Keyed.node key head inside).forget.markRendered)
            (Section.expandCopy settings c k (.node (Keyed.node key head inside).forget)) Same := by
        intro base σ' hready
        have hsub := (keys_inside_sublist ((Keyed.node key head inside).moved base)).subset
        have hinside : Ready σ' (Keyed.movedAll base inside) := hready.inside
        rw [Keyed.moved]
        cases head with
        | table attributes rows rendered =>
          cases rendered with
          | false =>
            have hrows := agrees_expandTable c true σ' (Keyed.movedAll base inside) hinside
            rw [Keyed.forgetAll_movedAll] at hrows
            rw [Keyed.forget, Node.withChildren, Section.expandCopy]
            refine hrows.bind (L := []) ?_ hsub (List.nil_subset _)
            rintro σ₁ made _ - rfl
            exact .lift _ fun _ => rfl
          | true =>
            simp only [Keyed.forget, Node.withChildren, Section.expandCopy]
            exact .pure rfl
        | paragraph | row | cell | pageBreak | verbatim =>
          simp only [Keyed.forget, Node.withChildren, Section.expandCopy]
          exact .pure rfl
      by_cases hk : k = 0
      · have hzero := Keyed.moved_zero (.node key head inside)
        rw [if_pos hk, pure_bind]
        exact (hcopy 0 σ (hzero.symm ▸ h.2 hk)).mono fun k hk => .inl (by rwa [hzero] at hk)
      · have hmoved : Keyed.movedAll σ.next [.node key head inside] =
            [(Keyed.node key head inside).moved σ.next] := rfl
        rw [if_neg hk]
        refine .fresh (hcopy σ.next σ.extended (hmoved ▸ h.1.ready_moved)) fun k hk => .inr ?_
        rw [← hmoved, Keyed.keys_movedAll] at hk
        obtain ⟨j, -, rfl⟩ := List.mem_map.1 hk
        exact Nat.le_add_right _ _
  termination_by n => n.size
  decreasing_by
    rw [Keyed.sizes_movedAll, Keyed.size]
    omega

theorem agrees_expandTable (c : Context) (nested : Bool) (σ : Store) (rows : List Keyed)
    (h : Ready σ rows) :
    Agrees (Keyed.keys rows) σ (expandTable settings c nested rows)
      (Section.expandTable settings c nested (Keyed.forgetAll rows)) Same := by
  have hrows : Keyed.forgetAll rows = rows.attach.map fun row => row.val.forget := by
    rw [Keyed.forgetAll_eq_map, List.attach_map_val]
  have hmem : ∀ row ∈ rows.attach, row.val ∈ Keyed.allOf rows := fun row _ =>
    (Keyed.all_sublist_of_mem row.property).subset (Keyed.mem_all row.val)
  rw [expandTable, hrows, Section.expandTable_map]
  refine (agrees_expandRows Subtype.val rows.attach h hmem).bind (L := Keyed.keys rows) ?_
    (List.Subset.refl _) (List.Subset.refl _)
  rintro σ₁ ⟨slots, changed⟩ _ - ⟨rfl, h₁, hkept⟩
  rw [List.attach_map_subtype_val] at hkept
  have hsub := Keyed.allOf_sublist hkept
  have hslots : ∀ σ', Ready σ' rows → Agrees (Keyed.keys rows) σ'
      (forEach (fun slot => match slot with
        | .made row => pure row
        | .kept row => expandRow settings c nested row.val) slots)
      (Merging.forEach (fun slot =>
        Section.settledSlot settings c nested (slot.map fun row => row.val.forget)) slots) Same := by
    intro σ' h'
    refine (agrees_forEach (slotRows Subtype.val) (h'.sublist hsub) fun slot _ σ'' hs => ?_).mono
      fun k hk => .inl ((Keyed.keys_sublist hsub).subset hk)
    cases slot with
    | made row => exact .pure rfl
    | kept row => exact agrees_expandRow c nested σ'' row.val hs
  dsimp only
  split
  · exact .invalidate (hslots _ h₁.ready_invalidated)
  · exact hslots _ h₁
  termination_by Keyed.sizes rows
  decreasing_by exact Keyed.size_lt_of_mem row.property

theorem agrees_expandRow (c : Context) (nested : Bool) (σ : Store) : ∀ row : Keyed, Ready σ [row] →
    Agrees (Keyed.keys [row]) σ (expandRow settings c nested row)
      (Section.expandRow settings c nested row.forget) Same
  | .node key head inside, h => by
    have hsub := (keys_inside_sublist (.node key head inside)).subset
    cases head with
    | row attributes cells rendered =>
      cases rendered with
      | true =>
        simp only [expandRow, Keyed.forget, Node.withChildren, Section.expandRow]
        exact .pure rfl
      | false =>
        have hcells := agrees_forEach_nodes h.inside fun cell hcell σ' h' =>
          agrees_expandCell c nested σ' cell h'
        rw [expandRow]
        change Agrees _ σ _ (Section.expandRow settings c nested
          (.row attributes (Keyed.forgetAll inside) false)) _
        rw [Section.expandRow_row]
        exact hcells.bind (L := [])
          (fun _ _ _ _ hab => .pure (congrArg (Node.row attributes · false) hab)) hsub
          (List.nil_subset _)
    | paragraph | table | cell | pageBreak | verbatim =>
      simp only [expandRow, Keyed.forget, Node.withChildren, Section.expandRow]
      exact .pure rfl
  termination_by row => row.size
  decreasing_by
    have hlt : cell.size < Keyed.sizes inside := Keyed.size_lt_of_mem hcell
    simp only [Keyed.size]
    omega

theorem agrees_expandCell (c : Context) (nested : Bool) (σ : Store) : ∀ cell : Keyed, Ready σ [cell] →
    Agrees (Keyed.keys [cell]) σ (expandCell settings c nested cell)
      (Section.expandCell settings c nested cell.forget) Same
  | .node key head inside, h => by
    have hsub := (keys_inside_sublist (.node key head inside)).subset
    cases head with
    | cell attributes children rendered =>
      rw [expandCell, Keyed.forget, Node.withChildren, Section.expandCell]
      exact (agrees_settled (agrees_expandBlocks c nested σ inside h.inside)).bind (L := [])
        (fun _ _ _ _ hab => .pure (congrArg (Node.cell attributes · rendered) hab)) hsub
        (List.nil_subset _)
    | paragraph | table | row | pageBreak | verbatim =>
      simp only [expandCell, Keyed.forget, Node.withChildren, Section.expandCell]
      exact .pure rfl
  termination_by cell => cell.size
  decreasing_by
    rw [Keyed.size]
    omega

end

end Cached

end MailMerge
