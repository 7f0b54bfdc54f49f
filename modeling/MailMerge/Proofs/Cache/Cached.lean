import MailMerge.Section.Image
import MailMerge.Tree.Basic
import MailMerge.Tree.TextCache

/-!
# Steps that read texts through a cache

A cache knows a node by its key, which stays with the node when the node is changed. Two nodes with
the same content have different keys, and so has a copy of a node. `Keyed.forget` is the node without
its keys.

A cached step is a step of a merge that carries a store along: the cache, and a bound on the keys that
are in use. It reads the text of a node through the cache, forgets the texts of the document, and makes
keys for copies. The store outlives an error. Every read is noted, with the text that came out of it and
the text that the node had then.

**`Keyed.keys_movedAll`**: the keys of a copy are those of the node that it was made of, moved.

**`Keyed.keys_numberedAll`**: any nodes can be given distinct keys.

**`Cached.read`**: a read gives the text that is kept for the node's key, or else the text of the node.
-/

namespace MailMerge

/-- A node with its key: what the node itself holds, and the nodes inside it. Nodes inside the head do
not count. -/
inductive Keyed where
  | node (key : Nat) (head : Node) (inside : List Keyed)

namespace Keyed

/-- The key of the node. -/
def key : Keyed → Nat
  | node key _ _ => key

/-- What the node itself holds. -/
def head : Keyed → Node
  | node _ head _ => head

/-- The nodes inside the node. -/
def inside : Keyed → List Keyed
  | node _ _ inside => inside

mutual

/-- The node without the keys. -/
def forget : Keyed → Node
  | node _ head inside => head.withChildren (forgetAll inside)

/-- The nodes without the keys. -/
def forgetAll : List Keyed → List Node
  | [] => []
  | n :: ns => n.forget :: forgetAll ns

end

mutual

/-- The node and the nodes inside it, at every depth. -/
def all : Keyed → List Keyed
  | node key head inside => node key head inside :: allOf inside

/-- The nodes of a list and those inside them, at every depth. -/
def allOf : List Keyed → List Keyed
  | [] => []
  | n :: ns => n.all ++ allOf ns

end

/-- The keys of the nodes of a list and of those inside them. -/
def keys (ns : List Keyed) : List Nat :=
  (allOf ns).map key

mutual

/-- A copy of the node: its keys are moved up. -/
def moved (base : Nat) : Keyed → Keyed
  | node key head inside => node (base + key) head (movedAll base inside)

/-- Copies of nodes. -/
def movedAll (base : Nat) : List Keyed → List Keyed
  | [] => []
  | n :: ns => n.moved base :: movedAll base ns

end

mutual

/-- The size of the node, whatever its keys are. -/
def size : Keyed → Nat
  | node _ _ inside => sizes inside + 1

/-- The size of a list of nodes. -/
def sizes : List Keyed → Nat
  | [] => 0
  | n :: ns => n.size + sizes ns + 1

end

/-! ## Forgetting keys -/

theorem forgetAll_eq_map (ns : List Keyed) : forgetAll ns = ns.map forget := by
  induction ns with
  | nil => rfl
  | cons n ns ih => rw [forgetAll, ih, List.map_cons]

@[simp] theorem forgetAll_append (ns ms : List Keyed) :
    forgetAll (ns ++ ms) = forgetAll ns ++ forgetAll ms := by
  simp [forgetAll_eq_map]

theorem forgetAll_take (ns : List Keyed) (count : Nat) :
    forgetAll (ns.take count) = (forgetAll ns).take count := by
  rw [forgetAll_eq_map, forgetAll_eq_map, List.map_take]

theorem forgetAll_drop (ns : List Keyed) (count : Nat) :
    forgetAll (ns.drop count) = (forgetAll ns).drop count := by
  rw [forgetAll_eq_map, forgetAll_eq_map, List.map_drop]

/-! ## Nodes at every depth -/

@[simp] theorem allOf_cons (n : Keyed) (ns : List Keyed) : allOf (n :: ns) = n.all ++ allOf ns := rfl

theorem allOf_append (ns ms : List Keyed) : allOf (ns ++ ms) = allOf ns ++ allOf ms := by
  induction ns with
  | nil => rfl
  | cons n ns ih => rw [List.cons_append, allOf_cons, allOf_cons, ih, List.append_assoc]

theorem all_eq (n : Keyed) : n.all = n :: allOf n.inside := by
  cases n with | node => rfl

theorem mem_all (n : Keyed) : n ∈ n.all := by
  rw [all_eq]
  exact List.mem_cons_self

theorem allOf_inside_sublist (n : Keyed) : (allOf n.inside).Sublist n.all := by
  rw [all_eq]
  exact List.sublist_cons_self _ _

theorem allOf_sublist {ms ns : List Keyed} (h : ms.Sublist ns) : (allOf ms).Sublist (allOf ns) := by
  induction h with
  | slnil => exact .slnil
  | cons n _ ih => exact ih.trans (List.sublist_append_right _ _)
  | cons_cons n _ ih => exact (List.Sublist.refl _).append ih

theorem all_sublist_of_mem {n : Keyed} {ns : List Keyed} (h : n ∈ ns) :
    n.all.Sublist (allOf ns) := by
  have := allOf_sublist (List.singleton_sublist.2 h)
  rwa [allOf_cons, allOf, List.append_nil] at this

/-! ## Keys -/

@[simp] theorem keys_nil : keys [] = [] := rfl

theorem keys_cons (n : Keyed) (ns : List Keyed) : keys (n :: ns) = keys [n] ++ keys ns := by
  simp [keys, allOf]

theorem keys_append (ns ms : List Keyed) : keys (ns ++ ms) = keys ns ++ keys ms := by
  rw [keys, allOf_append, List.map_append]
  rfl

theorem keys_singleton (n : Keyed) : keys [n] = n.key :: keys n.inside := by
  simp [keys, allOf, all_eq]

theorem keys_sublist {ms ns : List Keyed} (h : (allOf ms).Sublist (allOf ns)) :
    (keys ms).Sublist (keys ns) :=
  h.map key

/-! ## Copies -/

mutual

/-- **A copy has the content of the node that it was made of.** -/
@[simp] theorem forget_moved (base : Nat) : ∀ n : Keyed, (n.moved base).forget = n.forget
  | node key head inside => by rw [moved, forget, forget, forgetAll_movedAll base inside]

theorem forgetAll_movedAll (base : Nat) : ∀ ns : List Keyed, forgetAll (movedAll base ns) = forgetAll ns
  | [] => rfl
  | n :: ns => by
    rw [movedAll, forgetAll, forgetAll, forget_moved base n, forgetAll_movedAll base ns]

end

mutual

@[simp] theorem size_moved (base : Nat) : ∀ n : Keyed, (n.moved base).size = n.size
  | node key head inside => by rw [moved, size, size, sizes_movedAll base inside]

theorem sizes_movedAll (base : Nat) : ∀ ns : List Keyed, sizes (movedAll base ns) = sizes ns
  | [] => rfl
  | n :: ns => by rw [movedAll, sizes, sizes, size_moved base n, sizes_movedAll base ns]

end

mutual

theorem map_key_all_moved (base : Nat) : ∀ n : Keyed,
    (n.moved base).all.map key = (n.all.map key).map (base + ·)
  | node k head inside => by
    rw [moved, all, all, List.map_cons, List.map_cons, List.map_cons]
    exact congrArg _ (keys_movedAll base inside)

/-- **The keys of copies are those of the nodes that they were made of, moved.** -/
theorem keys_movedAll (base : Nat) : ∀ ns : List Keyed,
    keys (movedAll base ns) = (keys ns).map (base + ·)
  | [] => rfl
  | n :: ns => by
    rw [keys, keys, movedAll, allOf_cons, allOf_cons, List.map_append, List.map_append,
      List.map_append, map_key_all_moved base n]
    exact congrArg _ (keys_movedAll base ns)

end

mutual

theorem moved_zero : ∀ n : Keyed, n.moved 0 = n
  | node key head inside => by rw [moved, Nat.zero_add, movedAll_zero inside]

theorem movedAll_zero : ∀ ns : List Keyed, movedAll 0 ns = ns
  | [] => rfl
  | n :: ns => by rw [movedAll, moved_zero n, movedAll_zero ns]

end

/-! ## Sizes -/

theorem size_eq (n : Keyed) : n.size = sizes n.inside + 1 := by
  cases n with | node => rfl

theorem sizes_take_le (ns : List Keyed) (count : Nat) : sizes (ns.take count) ≤ sizes ns := by
  induction ns generalizing count with
  | nil => simp
  | cons n ns ih =>
    cases count with
    | zero => simp [sizes]
    | succ count =>
      have := ih count
      simp only [List.take_succ_cons, sizes]
      omega

theorem sizes_drop_le (ns : List Keyed) (count : Nat) : sizes (ns.drop count) ≤ sizes ns := by
  induction ns generalizing count with
  | nil => simp
  | cons n ns ih =>
    cases count with
    | zero => exact Nat.le_refl _
    | succ count =>
      have := ih count
      simp only [List.drop_succ_cons, sizes]
      omega

theorem sizes_le_of_sublist {ms ns : List Keyed} (h : ms.Sublist ns) : sizes ms ≤ sizes ns := by
  induction h with
  | slnil => exact Nat.le_refl _
  | cons n _ ih => exact Nat.le_trans ih (by simp only [sizes]; omega)
  | cons_cons n _ ih =>
    simp only [sizes]
    omega

theorem size_lt_of_mem {n : Keyed} {ns : List Keyed} (h : n ∈ ns) : n.size < sizes ns := by
  induction ns with
  | nil => cases h
  | cons m ns ih =>
    simp only [sizes]
    rcases List.mem_cons.1 h with rfl | h
    · omega
    · have := ih h
      omega

/-! ## Numbering -/

mutual

/-- The node with keys that count up from a number. -/
def numbered (first : Nat) : Node → Keyed
  | .table attributes rows rendered =>
    node first (.table attributes [] rendered) (numberedAll (first + 1) rows)
  | .row attributes cells rendered =>
    node first (.row attributes [] rendered) (numberedAll (first + 1) cells)
  | .cell attributes children rendered =>
    node first (.cell attributes [] rendered) (numberedAll (first + 1) children)
  | n => node first n []

/-- The nodes with keys that count up from a number. -/
def numberedAll (first : Nat) : List Node → List Keyed
  | [] => []
  | n :: ns => numbered first n :: numberedAll (first + (keys [numbered first n]).length) ns

end

mutual

theorem forget_numbered (first : Nat) : ∀ n : Node, (numbered first n).forget = n
  | .table _ rows _ => by
    rw [numbered, forget, forgetAll_numberedAll (first + 1) rows, Node.withChildren]
  | .row _ cells _ => by
    rw [numbered, forget, forgetAll_numberedAll (first + 1) cells, Node.withChildren]
  | .cell _ children _ => by
    rw [numbered, forget, forgetAll_numberedAll (first + 1) children, Node.withChildren]
  | .paragraph _ _ | .pageBreak _ | .verbatim _ => rfl

theorem forgetAll_numberedAll (first : Nat) : ∀ ns : List Node, forgetAll (numberedAll first ns) = ns
  | [] => rfl
  | n :: ns => by
    rw [numberedAll, forgetAll, forget_numbered first n, forgetAll_numberedAll _ ns]

end

mutual

theorem keys_numbered (first : Nat) : ∀ n : Node,
    keys [numbered first n] = List.range' first (keys [numbered first n]).length
  | .table _ nodes _ | .row _ nodes _ | .cell _ nodes _ => by
    have hinside := keys_numberedAll (first + 1) nodes
    simp only [numbered, keys_singleton, key, inside, List.length_cons, List.range'_succ]
    rw [← hinside]
  | .paragraph _ _ | .pageBreak _ | .verbatim _ => rfl

/-- **The keys count up.** -/
theorem keys_numberedAll (first : Nat) : ∀ ns : List Node,
    keys (numberedAll first ns) = List.range' first (keys (numberedAll first ns)).length
  | [] => rfl
  | n :: ns => by
    have hfirst := keys_numbered first n
    have hrest := keys_numberedAll (first + (keys [numbered first n]).length) ns
    rw [numberedAll, keys_cons, List.length_append, ← List.range'_append_1, ← hfirst, ← hrest]

end
end Keyed
end MailMerge

/-! ## Cached steps -/

namespace MailMerge

/-- A read of a node's text: what came out, and the text of the node at that time. -/
structure TextRead where
  returned : Text
  current : Text

/-- What a merge with a cache carries along. -/
structure Store where
  /-- The document that the nodes are of. -/
  document : Text
  cache : TextCache
  /-- The keys that are in use are below. -/
  next : Nat
  reads : List TextRead := []

namespace Store

/-- The text that is kept for a key. -/
def kept (σ : Store) (key : Nat) : Option Text :=
  σ.cache.find? σ.document key

/-- The store after the text of a node was read. -/
def afterRead (σ : Store) (n : Keyed) : Store :=
  { σ with
    cache := (σ.cache.read σ.document n.key n.forget.text).2
    reads := σ.reads ++ [⟨(σ.cache.read σ.document n.key n.forget.text).1, n.forget.text⟩] }

/-- The store without the texts of the document. -/
def invalidated (σ : Store) : Store :=
  { σ with cache := σ.cache.invalidate σ.document }

/-- The store with as many keys in use again, those from the bound on. -/
def extended (σ : Store) : Store :=
  { σ with next := σ.next + σ.next }

end Store

/-- A step that carries a store along. -/
def Cached (ι α : Type) := Store → Merging ι α × Store

namespace Cached

variable {ι κ α β : Type}

/-- A step that leaves the store alone. -/
def lift (x : Merging ι α) : Cached ι α :=
  fun σ => (x, σ)

/-- A step, and another one that goes on from its result and its store. -/
def andThen (x : Cached ι α) (f : α → Cached ι β) : Cached ι β := fun σ =>
  match x σ with
  | (Except.error e, σ₁) => (Except.error e, σ₁)
  | (Except.ok (a, log), σ₁) =>
    match f a σ₁ with
    | (Except.error e, σ₂) => (Except.error e, σ₂)
    | (Except.ok (b, log'), σ₂) => (Except.ok (b, log ++ log'), σ₂)

instance : Monad (Cached ι) where
  pure a := lift (pure a)
  bind := andThen

theorem andThen_pure (x : Cached ι α) : (x.andThen fun a => lift (pure a)) = x := by
  funext σ
  unfold andThen
  rcases x σ with ⟨e | ⟨a, log⟩, σ₁⟩
  · rfl
  · exact congrArg (fun log => (Except.ok (a, log), σ₁)) (Merging.Log.append_empty log)

theorem pure_andThen (a : α) (f : α → Cached ι β) : (lift (pure a)).andThen f = f a := by
  funext σ
  change (match f a σ with
    | (Except.error e, σ₂) => (Except.error e, σ₂)
    | (Except.ok (b, log'), σ₂) => (Except.ok (b, ({} : Log ι) ++ log'), σ₂)) = _
  rcases f a σ with ⟨e | ⟨b, log⟩, σ₁⟩
  · rfl
  · exact congrArg (fun log => (Except.ok (b, log), σ₁)) (Merging.Log.empty_append log)

theorem andThen_assoc {γ : Type} (x : Cached ι α) (f : α → Cached ι β) (g : β → Cached ι γ) :
    (x.andThen f).andThen g = x.andThen fun a => (f a).andThen g := by
  funext σ
  unfold andThen
  rcases x σ with ⟨e | ⟨a, log⟩, σ₁⟩
  · rfl
  · dsimp only
    rcases f a σ₁ with ⟨e | ⟨b, log'⟩, σ₂⟩
    · rfl
    · dsimp only
      rcases g b σ₂ with ⟨e | ⟨d, log''⟩, σ₃⟩
      · rfl
      · exact congrArg (fun log => (Except.ok (d, log), σ₃)) (Merging.Log.append_assoc log log' log'')

section Outcomes

variable {x : Cached ι α} {f : α → Cached ι β} {σ σ₁ σ₂ : Store} {a : α} {b : β} {e : MergeError}
  {log log' : Log ι}

theorem andThen_of_error (h : x σ = (Except.error e, σ₁)) :
    x.andThen f σ = (Except.error e, σ₁) := by
  unfold andThen
  rw [h]
  rfl

theorem andThen_of_ok_error (h : x σ = (Except.ok (a, log), σ₁))
    (hf : f a σ₁ = (Except.error e, σ₂)) : x.andThen f σ = (Except.error e, σ₂) := by
  unfold andThen
  rw [h]
  dsimp only
  rw [hf]
  rfl

theorem andThen_of_ok (h : x σ = (Except.ok (a, log), σ₁))
    (hf : f a σ₁ = (Except.ok (b, log'), σ₂)) :
    x.andThen f σ = (Except.ok (b, log ++ log'), σ₂) := by
  unfold andThen
  rw [h]
  dsimp only
  rw [hf]
  rfl

end Outcomes

instance : LawfulMonad (Cached ι) :=
  LawfulMonad.mk' (Cached ι) andThen_pure pure_andThen andThen_assoc

/-- The text of a node, read through the cache. -/
def read (n : Keyed) : Cached ι Text := fun σ =>
  (pure (σ.cache.read σ.document n.key n.forget.text).1, σ.afterRead n)

/-- The texts of the document are forgotten. -/
def invalidate : Cached ι Unit := fun σ =>
  (pure (), σ.invalidated)

/-- A number to move the keys of a copy by: no key is in use from there on. -/
def freshBase : Cached ι Nat := fun σ =>
  (pure σ.next, σ.extended)

/-- The step with its images handed over to a function of the result. -/
def mapImages (x : Cached ι α) (f : α → List ι → List κ) : Cached κ α := fun σ =>
  ((x σ).1.mapImages f, (x σ).2)

/-- The step with its images seen from a list in which the result stands at an index. -/
def under (index : Nat) (x : Cached PendingImage α) : Cached PendingImage α :=
  x.mapImages fun _ images => images.map (PendingImage.under index)

/-- The step with its images seen from a list with more nodes in front. -/
def shifted (count : Nat) (x : Cached PendingImage α) : Cached PendingImage α :=
  x.mapImages fun _ images => images.map (PendingImage.shift count)

/-- A step for each item of a list, each making one node. -/
def forEach (f : β → Cached PendingImage α) (items : List β) : Cached PendingImage (List α) :=
  items.zipIdx.mapM fun (x, i) => (f x).under i

end Cached
end MailMerge
