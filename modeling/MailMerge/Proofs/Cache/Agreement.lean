import MailMerge.Proofs.Cache.Cached
import Mathlib.Data.List.Nodup

/-!
# Cached steps that agree with plain ones

**Ready nodes** (`Ready`). The keys of the nodes are distinct and in use, and the cache keeps nothing
for them but their texts.

**What a step may do to a store** (`Step`). It may change what is kept for some keys, which are those of
the nodes that it works on, and for keys that were not in use. For all other keys it may forget texts but
keep no new ones. So nodes that a step does not work on stay ready (`Ready.step`).

**Looking** (`Looks`). A step that only reads texts gives what it would give without a cache, and leaves
the nodes ready.

**Agreement** (`Agrees`). From a given store, a cached step has the outcome of a plain step: the same
error, or the same log and related results. Every read in it gives the text of the node.
-/

namespace MailMerge

variable {ι κ α β γ δ : Type}

/-! ## Stores -/

namespace Store

/-- Texts are kept for keys in use only. -/
def Sealed (σ : Store) : Prop :=
  ∀ k t, σ.kept k = some t → k < σ.next

/-- Every read gave the text that the node had. -/
def Sound (σ : Store) : Prop :=
  ∀ r ∈ σ.reads, r.returned = r.current

theorem kept_invalidated (σ : Store) (k : Nat) : σ.invalidated.kept k = none := by
  simp only [kept, invalidated, TextCache.find?, TextCache.invalidate, Option.map_eq_none_iff,
    List.find?_eq_none, List.mem_filter, decide_eq_true_eq]
  exact fun e he h => he.2 (of_decide_eq_true h).1

/-- After a read, the text of the node may be kept for its key; nothing else is new. -/
theorem kept_afterRead {σ : Store} {n : Keyed} {k : Nat} {t : Text}
    (h : (σ.afterRead n).kept k = some t) :
    σ.kept k = some t ∨ k = n.key ∧ t = n.forget.text := by
  unfold kept afterRead TextCache.read at h
  cases hn : σ.cache.find? σ.document n.key with
  | some u =>
    rw [hn] at h
    exact .inl h
  | none =>
    rw [hn] at h
    simp only [TextCache.find?, List.find?_cons] at h
    split at h
    · next he =>
      rw [Option.map_some, Option.some.injEq] at h
      exact .inr ⟨(by simpa using he : n.key = k).symm, h.symm⟩
    · exact .inl h

end Store

/-- The keys of the nodes are distinct and in use. -/
structure Known (σ : Store) (ns : List Keyed) : Prop where
  sealed : σ.Sealed
  distinct : (Keyed.keys ns).Nodup
  used : ∀ k ∈ Keyed.keys ns, k < σ.next

/-- The keys of the nodes are distinct and in use, and what is kept for them is their text. -/
structure Ready (σ : Store) (ns : List Keyed) : Prop extends Known σ ns where
  fits : ∀ n ∈ Keyed.allOf ns, ∀ t, σ.kept n.key = some t → t = n.forget.text

/-- What a step that works on nodes with the given keys may do to a store. -/
structure Step (keys : List Nat) (σ σ' : Store) : Prop where
  grows : σ.next ≤ σ'.next
  kept : ∀ k t, σ'.kept k = some t → σ.kept k = some t ∨ k ∈ keys ∨ σ.next ≤ k
  sealed : σ.Sealed → σ'.Sealed
  sound : σ.Sound → σ'.Sound

namespace Step

variable {keys keys' : List Nat} {σ σ₁ σ₂ : Store}

theorem refl (keys : List Nat) (σ : Store) : Step keys σ σ where
  grows := Nat.le_refl _
  kept := fun _ _ h => .inl h
  sealed := id
  sound := id

theorem trans (h : Step keys σ σ₁) (h' : Step keys σ₁ σ₂) : Step keys σ σ₂ where
  grows := Nat.le_trans h.grows h'.grows
  kept := fun k t hk => by
    rcases h'.kept k t hk with hk | hk | hk
    · exact h.kept k t hk
    · exact .inr (.inl hk)
    · exact .inr (.inr (Nat.le_trans h.grows hk))
  sealed := h'.sealed ∘ h.sealed
  sound := h'.sound ∘ h.sound

/-- Keys that were not in use need not be counted among those of the nodes. -/
theorem mono (h : Step keys σ σ₁) (hkeys : ∀ k ∈ keys, k ∈ keys' ∨ σ.next ≤ k) :
    Step keys' σ σ₁ where
  grows := h.grows
  kept := fun k t hk => by
    rcases h.kept k t hk with hk | hk | hk
    · exact .inl hk
    · exact .inr (hkeys k hk)
    · exact .inr (.inr hk)
  sealed := h.sealed
  sound := h.sound

theorem invalidated (keys : List Nat) (σ : Store) : Step keys σ σ.invalidated where
  grows := Nat.le_refl _
  kept := fun k t h => by rw [Store.kept_invalidated] at h; cases h
  sealed := fun _ k t h => by rw [Store.kept_invalidated] at h; cases h
  sound := id

theorem extended (keys : List Nat) (σ : Store) : Step keys σ σ.extended where
  grows := Nat.le_add_right _ _
  kept := fun _ _ h => .inl h
  sealed := fun h k t hk => Nat.lt_add_right _ (h k t hk)
  sound := id

end Step

/-! ## Ready nodes -/

section Ready

variable {σ σ' : Store} {ms ns : List Keyed} {keys : List Nat}

theorem Known.step (h : Known σ ns) (hs : Step keys σ σ') : Known σ' ns where
  sealed := hs.sealed h.sealed
  distinct := h.distinct
  used := fun k hk => Nat.lt_of_lt_of_le (h.used k hk) hs.grows

theorem Known.sublist (h : Known σ ns) (hsub : (Keyed.keys ms).Sublist (Keyed.keys ns)) :
    Known σ ms where
  sealed := h.sealed
  distinct := h.distinct.sublist hsub
  used := fun k hk => h.used k (hsub.subset hk)

/-- **Nodes that a step does not work on stay ready.** -/
theorem Ready.step (h : Ready σ ns) (hs : Step keys σ σ') (hkeys : ∀ k ∈ Keyed.keys ns, k ∉ keys) :
    Ready σ' ns where
  toKnown := h.toKnown.step hs
  fits := fun n hn t ht => by
    have hk : n.key ∈ Keyed.keys ns := List.mem_map_of_mem hn
    rcases hs.kept n.key t ht with ht | hin | hfresh
    · exact h.fits n hn t ht
    · exact absurd hin (hkeys n.key hk)
    · exact absurd (h.used n.key hk) (Nat.not_lt_of_le hfresh)

theorem Ready.sublist (h : Ready σ ns) (hsub : (Keyed.allOf ms).Sublist (Keyed.allOf ns)) :
    Ready σ ms where
  toKnown := h.toKnown.sublist (Keyed.keys_sublist hsub)
  fits := fun n hn => h.fits n (hsub.subset hn)

theorem Ready.first {n : Keyed} (h : Ready σ (n :: ns)) : Ready σ [n] :=
  h.sublist (Keyed.allOf_sublist (List.singleton_sublist.2 List.mem_cons_self))

/-- The nodes inside a ready node are ready. -/
theorem Ready.inside {n : Keyed} (h : Ready σ [n]) : Ready σ n.inside :=
  h.sublist <| by
    rw [Keyed.allOf_cons, Keyed.allOf, List.append_nil]
    exact n.allOf_inside_sublist

/-- When the texts of the document are forgotten, known nodes are ready. -/
theorem Known.ready_invalidated (h : Known σ ns) : Ready σ.invalidated ns where
  toKnown := h.step (.invalidated [] σ)
  fits := fun n _ t ht => by rw [Store.kept_invalidated] at ht; cases ht

/-- Of distinct nodes, those of one part have no key in another part. -/
theorem Known.disjoint (h : Known σ (ms ++ ns)) : ∀ k ∈ Keyed.keys ns, k ∉ Keyed.keys ms := by
  have hd := h.distinct
  rw [Keyed.keys_append, List.nodup_append] at hd
  exact fun k hk hk' => hd.2.2 k hk' k hk rfl

/-- When a step has worked on the first nodes, the others are ready. -/
theorem Ready.rest (h : Ready σ (ms ++ ns)) (hs : Step (Keyed.keys ms) σ σ') : Ready σ' ns :=
  (h.sublist (Keyed.allOf_sublist (List.sublist_append_right ms ns))).step hs h.disjoint

/-- **Copies are ready.** -/
theorem Known.ready_moved (h : Known σ ns) : Ready σ.extended (Keyed.movedAll σ.next ns) where
  sealed := (Step.extended [] σ).sealed h.sealed
  distinct := by
    rw [Keyed.keys_movedAll]
    exact List.pairwise_map.2 (h.distinct.imp fun hne he => hne (Nat.add_left_cancel he))
  used := fun k hk => by
    rw [Keyed.keys_movedAll] at hk
    obtain ⟨j, hj, rfl⟩ := List.mem_map.1 hk
    exact Nat.add_lt_add_left (h.used j hj) _
  fits := fun n hn t ht => by
    have hk : n.key ∈ Keyed.keys (Keyed.movedAll σ.next ns) := List.mem_map_of_mem hn
    rw [Keyed.keys_movedAll] at hk
    obtain ⟨j, hj, he⟩ := List.mem_map.1 hk
    exact absurd (h.sealed n.key t ht) (by omega)

end Ready

/-! ## Looking -/

/-- From a store in which the nodes are ready, the step gives the value, reports nothing and leaves the
nodes ready. -/
def Looks (ns : List Keyed) (x : Cached ι α) (a : α) : Prop :=
  ∀ σ, Ready σ ns → ∃ σ', x σ = (pure a, σ') ∧ Step (Keyed.keys ns) σ σ' ∧ Ready σ' ns

namespace Looks

variable {ns : List Keyed}

theorem pure (a : α) : Looks ns (Pure.pure a : Cached ι α) a :=
  fun σ h => ⟨σ, rfl, .refl _ σ, h⟩

theorem bind {x : Cached ι α} {a : α} {f : α → Cached ι β} {b : β} (hx : Looks ns x a)
    (hf : Looks ns (f a) b) : Looks ns (x >>= f) b := by
  intro σ h
  obtain ⟨σ₁, hx, hs₁, h₁⟩ := hx σ h
  obtain ⟨σ₂, hf, hs₂, h₂⟩ := hf σ₁ h₁
  exact ⟨σ₂, Cached.andThen_of_ok hx hf, hs₁.trans hs₂, h₂⟩

theorem map {x : Cached ι α} {a : α} (hx : Looks ns x a) (f : α → β) : Looks ns (f <$> x) (f a) := by
  rw [← bind_pure_comp]
  exact hx.bind (.pure (f a))

/-- **A node that is ready is read as it is.** -/
theorem read {n : Keyed} (hn : n ∈ Keyed.allOf ns) :
    Looks ns (Cached.read n : Cached ι Text) n.forget.text := by
  intro σ h
  have hkey : n.key ∈ Keyed.keys ns := List.mem_map_of_mem hn
  have hreturned : (σ.cache.read σ.document n.key n.forget.text).1 = n.forget.text := by
    unfold TextCache.read
    cases ht : σ.cache.find? σ.document n.key with
    | none => rfl
    | some t => exact h.fits n hn t ht
  have hstep : Step (Keyed.keys ns) σ (σ.afterRead n) := {
    grows := Nat.le_refl _
    kept := fun k t ht => by
      rcases Store.kept_afterRead ht with ht | ⟨rfl, -⟩
      · exact .inl ht
      · exact .inr (.inl hkey)
    sealed := fun hsealed k t ht => by
      rcases Store.kept_afterRead ht with ht | ⟨rfl, -⟩
      · exact hsealed k t ht
      · exact h.used n.key hkey
    sound := fun hsound r hr => by
      rcases List.mem_append.1 hr with hr | hr
      · exact hsound r hr
      · rw [List.mem_singleton.1 hr]
        exact hreturned }
  refine ⟨σ.afterRead n, Prod.ext (congrArg Pure.pure hreturned) rfl, hstep, h.toKnown.step hstep, ?_⟩
  intro m hm t ht
  rcases Store.kept_afterRead ht with ht | ⟨hk, rfl⟩
  · exact h.fits m hm t ht
  · -- Keys are distinct, so the node that was read is this one.
    have hinj := List.inj_on_of_nodup_map h.distinct hm hn hk
    rw [hinj]

theorem mapM {xs : List β} {f : β → Cached ι α} {g : β → α} (h : ∀ x ∈ xs, Looks ns (f x) (g x)) :
    Looks ns (xs.mapM f) (xs.map g) := by
  induction xs with
  | nil => exact .pure []
  | cons x xs ih =>
    rw [List.mapM_cons, List.map_cons]
    exact (h x List.mem_cons_self).bind
      ((ih fun y hy => h y (List.mem_cons_of_mem x hy)).bind (.pure _))

end Looks

/-! ## Agreement -/

/-- From the store, the cached step works on nodes with the given keys and has the outcome of the plain
step: the same error, or related results and the same log. The relation may speak of the store at the
end. -/
inductive Agrees (keys : List Nat) (σ : Store) (x : Cached ι α) (y : Merging ι β)
    (R : Store → α → β → Prop) : Prop
  | error (e : MergeError) (σ' : Store) : x σ = (Except.error e, σ') → y = Except.error e →
      Step keys σ σ' → Agrees keys σ x y R
  | ok (a : α) (b : β) (log : Log ι) (σ' : Store) : x σ = (Except.ok (a, log), σ') →
      y = Except.ok (b, log) → Step keys σ σ' → R σ' a b → Agrees keys σ x y R

namespace Agrees

variable {K L M : List Nat} {σ : Store} {R : Store → α → β → Prop} {S : Store → γ → δ → Prop}

theorem pure {a : α} {b : β} (h : R σ a b) :
    Agrees K σ (Pure.pure a : Cached ι α) (Pure.pure b) R :=
  .ok a b {} σ rfl rfl (.refl K σ) h

theorem lift {R : Store → α → α → Prop} (x : Merging ι α) (h : ∀ a, R σ a a) :
    Agrees K σ (Cached.lift x) x R := by
  rcases x with e | ⟨a, log⟩
  · exact .error e σ rfl rfl (.refl K σ)
  · exact .ok a a log σ rfl rfl (.refl K σ) (h a)

theorem fail (e : MergeError) :
    Agrees K σ (Cached.lift (.fail e) : Cached ι α) (.fail e : Merging ι β) R :=
  .error e σ rfl rfl (.refl K σ)

theorem step {x : Cached ι α} {y : Merging ι β} (h : Agrees K σ x y R) :
    Step K σ (x σ).2 := by
  cases h with
  | error e σ' hx _ hs => rw [hx]; exact hs
  | ok a b log σ' hx _ hs _ => rw [hx]; exact hs

theorem mono {x : Cached ι α} {y : Merging ι β} (h : Agrees K σ x y R)
    (hkeys : ∀ k ∈ K, k ∈ L ∨ σ.next ≤ k) : Agrees L σ x y R := by
  cases h with
  | error e σ' hx hy hs => exact .error e σ' hx hy (hs.mono hkeys)
  | ok a b log σ' hx hy hs hr => exact .ok a b log σ' hx hy (hs.mono hkeys) hr

theorem imp {x : Cached ι α} {y : Merging ι β} {R' : Store → α → β → Prop} (h : Agrees K σ x y R)
    (himp : ∀ σ' a b, Step K σ σ' → R σ' a b → R' σ' a b) : Agrees K σ x y R' := by
  cases h with
  | error e σ' hx hy hs => exact .error e σ' hx hy hs
  | ok a b log σ' hx hy hs hr => exact .ok a b log σ' hx hy hs (himp σ' a b hs hr)

/-- **Steps in sequence agree if the first ones do, and then the second ones.** -/
theorem bind {x : Cached ι α} {y : Merging ι β} {f : α → Cached ι γ}
    {g : β → Merging ι δ} (hx : Agrees K σ x y R)
    (hf : ∀ σ₁ a b, Step K σ σ₁ → R σ₁ a b → Agrees L σ₁ (f a) (g b) S)
    (hK : K ⊆ M) (hL : L ⊆ M) : Agrees M σ (x >>= f) (y >>= g) S := by
  have hsub₁ : ∀ k ∈ K, k ∈ M ∨ σ.next ≤ k := fun k hk => .inl (hK hk)
  change Agrees M σ (Cached.andThen x f) (Merging.andThen y g) S
  cases hx with
  | error e σ₁ hx hy hs =>
    subst hy
    exact .error e σ₁ (Cached.andThen_of_error hx) rfl (hs.mono hsub₁)
  | ok a b log σ₁ hx hy hs hr =>
    subst hy
    have hsub₂ : ∀ k ∈ L, k ∈ M ∨ σ₁.next ≤ k := fun k hk => .inl (hL hk)
    cases hf σ₁ a b hs hr with
    | error e σ₂ hfx hgy hs₂ =>
      refine .error e σ₂ (Cached.andThen_of_ok_error hx hfx) ?_
        ((hs.mono hsub₁).trans (hs₂.mono hsub₂))
      simp only [Merging.andThen, hgy]
      rfl
    | ok c d log' σ₂ hfx hgy hs₂ hr₂ =>
      refine .ok c d (log ++ log') σ₂ (Cached.andThen_of_ok hx hfx) ?_
        ((hs.mono hsub₁).trans (hs₂.mono hsub₂)) hr₂
      simp only [Merging.andThen, hgy]
      rfl

/-- A cached step may look at ready nodes first. -/
theorem look {ns : List Keyed} {x : Cached ι α} {a : α} {f : α → Cached ι γ} {y : Merging ι δ}
    (hx : Looks ns x a) (h : Ready σ ns) (hkeys : Keyed.keys ns ⊆ K)
    (hf : ∀ σ₁, Step (Keyed.keys ns) σ σ₁ → Ready σ₁ ns → Agrees K σ₁ (f a) y S) :
    Agrees K σ (x >>= f) y S := by
  obtain ⟨σ₁, hx, hs, h₁⟩ := hx σ h
  have hlook : Agrees (Keyed.keys ns) σ x (Pure.pure a : Merging ι α)
      (fun σ' a' b => a' = a ∧ b = a ∧ Step (Keyed.keys ns) σ σ' ∧ Ready σ' ns) :=
    .ok a a {} σ₁ hx rfl hs ⟨rfl, rfl, hs, h₁⟩
  have hy : y = (Pure.pure a : Merging ι α) >>= fun _ => y := by rw [pure_bind]
  rw [hy]
  refine hlook.bind ?_ hkeys (List.Subset.refl K)
  rintro σ₂ _ _ - ⟨rfl, rfl, hs₂, h₂⟩
  exact hf σ₂ hs₂ h₂

/-- A cached step may forget texts first. -/
theorem invalidate {f : Unit → Cached ι γ} {y : Merging ι δ}
    (hf : Agrees K σ.invalidated (f ()) y S) : Agrees K σ (Cached.invalidate >>= f) y S := by
  have hinvalidate : Agrees K σ (Cached.invalidate : Cached ι Unit) (Pure.pure ())
      (fun σ' _ _ => σ' = σ.invalidated) :=
    .ok () () {} σ.invalidated rfl rfl (.invalidated K σ) rfl
  have hy : y = (Pure.pure () : Merging ι Unit) >>= fun _ => y := by rw [pure_bind]
  rw [hy]
  refine hinvalidate.bind ?_ (List.Subset.refl K) (List.Subset.refl K)
  rintro _ _ _ - rfl
  exact hf

/-- A cached step may make new keys first. -/
theorem fresh {f : Nat → Cached ι γ} {y : Merging ι δ}
    (hf : Agrees L σ.extended (f σ.next) y S) (hL : ∀ k ∈ L, k ∈ K ∨ σ.next ≤ k) :
    Agrees K σ (Cached.freshBase >>= f) y S := by
  have hfresh : Agrees L σ (Cached.freshBase : Cached ι Nat) (Pure.pure ())
      (fun σ' base _ => σ' = σ.extended ∧ base = σ.next) :=
    .ok σ.next () {} σ.extended rfl rfl (.extended L σ) ⟨rfl, rfl⟩
  have hy : y = (Pure.pure () : Merging ι Unit) >>= fun _ => y := by rw [pure_bind]
  rw [hy]
  refine Agrees.mono (hfresh.bind (L := L) ?_ (List.Subset.refl L) (List.Subset.refl L)) hL
  rintro _ _ _ - ⟨rfl, rfl⟩
  exact hf

theorem mapImages {x : Cached ι α} {y : Merging ι β} {f : α → List ι → List κ}
    {g : β → List ι → List κ} (h : Agrees K σ x y R) (hfg : ∀ σ' a b, R σ' a b → f a = g b) :
    Agrees K σ (x.mapImages f) (y.mapImages g) R := by
  cases h with
  | error e σ' hx hy hs =>
    refine .error e σ' ?_ ?_ hs
    · unfold Cached.mapImages
      rw [hx]
      rfl
    · rw [hy]
      rfl
  | ok a b log σ' hx hy hs hr =>
    refine .ok a b ⟨log.warnings, g b log.images⟩ σ' ?_ ?_ hs hr
    · unfold Cached.mapImages
      rw [hx, ← hfg σ' a b hr]
      rfl
    · rw [hy]
      rfl

/-! ### Traversals -/

/-- Steps for the items of a list agree if each of them does. What a step needs of the store holds at the
start, and the steps for the items before leave it so. -/
theorem mapM {xs : List α} {f : α → Cached ι γ} {g : α → Merging ι γ} {P : Store → α → Prop}
    {K : α → List Nat}
    (hf : ∀ x ∈ xs, ∀ σ', P σ' x → Agrees (K x) σ' (f x) (g x) fun _ a b => a = b)
    (hkeys : ∀ x ∈ xs, K x ⊆ M)
    (hpairs : xs.Pairwise fun x y => ∀ σ₁ σ₂, P σ₁ y → Step (K x) σ₁ σ₂ → P σ₂ y)
    (h : ∀ x ∈ xs, P σ x) : Agrees M σ (xs.mapM f) (xs.mapM g) fun _ as bs => as = bs := by
  induction xs generalizing σ with
  | nil => exact .pure rfl
  | cons x xs ih =>
    rw [List.mapM_cons, List.mapM_cons]
    obtain ⟨hx, hxs⟩ := List.pairwise_cons.1 hpairs
    refine (hf x List.mem_cons_self σ (h x List.mem_cons_self)).bind (L := M)
      (fun σ₁ a b hs hab => ?_) (hkeys x List.mem_cons_self) (List.Subset.refl _)
    subst hab
    have hrest := ih (σ := σ₁) (fun y hy => hf y (List.mem_cons_of_mem x hy))
      (fun y hy => hkeys y (List.mem_cons_of_mem x hy)) hxs
      fun y hy => hx y hy σ σ₁ (h y (List.mem_cons_of_mem x hy)) hs
    refine hrest.bind (L := M) (fun σ₂ as bs _ habs => ?_) (List.Subset.refl _)
      (List.Subset.refl _)
    subst habs
    exact .pure rfl

theorem under {x : Cached PendingImage α} {y : Merging PendingImage β} (h : Agrees K σ x y R)
    (index : Nat) : Agrees K σ (x.under index) (y.under index) R :=
  h.mapImages fun _ _ _ _ => rfl

theorem shifted {x : Cached PendingImage α} {y : Merging PendingImage β} (h : Agrees K σ x y R)
    (count : Nat) : Agrees K σ (x.shifted count) (y.shifted count) R :=
  h.mapImages fun _ _ _ _ => rfl

theorem forEach {xs : List α} {f : α → Cached PendingImage γ} {g : α → Merging PendingImage γ}
    {P : Store → α → Prop} {K : α → List Nat}
    (hf : ∀ x ∈ xs, ∀ σ', P σ' x → Agrees (K x) σ' (f x) (g x) fun _ a b => a = b)
    (hkeys : ∀ x ∈ xs, K x ⊆ M)
    (hpairs : xs.Pairwise fun x y => ∀ σ₁ σ₂, P σ₁ y → Step (K x) σ₁ σ₂ → P σ₂ y)
    (h : ∀ x ∈ xs, P σ x) :
    Agrees M σ (Cached.forEach f xs) (Merging.forEach g xs) fun _ as bs => as = bs := by
  have hmem : ∀ p ∈ xs.zipIdx, p.1 ∈ xs := fun p hp => by
    have := List.mem_map_of_mem (f := Prod.fst) hp
    rwa [List.zipIdx_map_fst] at this
  refine mapM (P := fun σ' p => P σ' p.1) (K := fun p => K p.1)
    (fun p hp σ' hP => (hf p.1 (hmem p hp) σ' hP).under p.2) (fun p hp => hkeys p.1 (hmem p hp)) ?_
    fun p hp => h p.1 (hmem p hp)
  rw [← List.zipIdx_map_fst 0 xs, List.pairwise_map] at hpairs
  exact hpairs

end Agrees

end MailMerge
