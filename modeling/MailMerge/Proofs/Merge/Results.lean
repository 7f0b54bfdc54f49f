import MailMerge.Section.Image
import Mathlib.Data.List.Forall2

/-!
# Results of a step, and of two

Two lists are related item by item if they are equally long and the items at each index are related. Two steps of a
merge agree on a relation if both end with the same error, or both have results and these are related. What they
report beside their results does not count. Steps that are built in the same way from steps that agree, agree
themselves.

A step of a merge gives a result if it does not fail, whatever it reports beside it. A step that is
made of others gives a result exactly if they do.

**`exists_of_forall₂_flatten`**: a list that is put together of others is related part by part.

**`Agree.bind`**: steps in sequence agree if the second ones agree on all related results.

**`gives_bind_iff`**: steps in sequence give what the second one gives for the result of the first.
-/

namespace MailMerge.Merging

section

variable {α β : Type} {R : α → β → Prop} {xs : List α} {ys : List β}

/-- Each item of the first list is related to one of the second. -/
theorem exists_of_forall₂ (h : List.Forall₂ R xs ys) {x : α} (hx : x ∈ xs) : ∃ y ∈ ys, R x y := by
  induction h with
  | nil => cases hx
  | cons hxy _ ih =>
    rcases List.mem_cons.1 hx with rfl | hx
    · exact ⟨_, List.mem_cons_self, hxy⟩
    · obtain ⟨y, hy, hr⟩ := ih hx
      exact ⟨y, List.mem_cons_of_mem _ hy, hr⟩

/-- What is related to two lists in a row is made of what is related to each of them. -/
theorem forall₂_append_left {xs' : List α} (h : List.Forall₂ R (xs ++ xs') ys) :
    ∃ as bs, List.Forall₂ R xs as ∧ List.Forall₂ R xs' bs ∧ ys = as ++ bs :=
  ⟨_, _, (List.forall₂_take_append _ _ _ h.flip).flip, (List.forall₂_drop_append _ _ _ h.flip).flip,
    (List.take_append_drop ..).symm⟩

theorem getElem?_of_forall₂ (h : List.Forall₂ R xs ys) {i : Nat} {x : α} (hx : xs[i]? = some x) :
    ∃ y, ys[i]? = some y ∧ R x y := by
  induction h generalizing i with
  | nil => simp at hx
  | cons hxy _ ih =>
    cases i with
    | zero =>
      obtain rfl := Option.some.inj hx
      exact ⟨_, rfl, hxy⟩
    | succ i => exact ih hx

theorem forall₂_modifyHead {f : α → α} (h : List.Forall₂ R xs ys)
    (hf : ∀ a b, R a b → R (f a) b) : List.Forall₂ R (xs.modifyHead f) ys := by
  cases h with
  | nil => exact .nil
  | cons hab h => exact .cons (hf _ _ hab) h

theorem forall₂_zipIdx (h : List.Forall₂ R xs ys) (k : Nat) :
    List.Forall₂ (fun p q => R p.1 q.1 ∧ p.2 = q.2) (xs.zipIdx k) (ys.zipIdx k) := by
  induction h generalizing k with
  | nil => exact .nil
  | cons hxy _ ih => exact .cons ⟨hxy, rfl⟩ (ih (k + 1))

theorem map_eq_of_forall₂ {γ : Type} {f : α → γ} {g : β → γ} (h : List.Forall₂ R xs ys)
    (hf : ∀ x y, R x y → g y = f x) : ys.map g = xs.map f := by
  induction h with
  | nil => rfl
  | cons hxy _ ih => rw [List.map_cons, List.map_cons, hf _ _ hxy, ih]

/-- What is related to the same items is related, item by item. -/
theorem forall₂_of_common {γ : Type} {S : α → γ → Prop} {T : β → γ → Prop} {zs : List γ}
    (h : List.Forall₂ R xs ys) (h' : List.Forall₂ S xs zs) (hT : ∀ x y z, R x y → S x z → T y z) :
    List.Forall₂ T ys zs := by
  induction h generalizing zs with
  | nil =>
    cases h'
    exact .nil
  | cons hxy _ ih =>
    cases h' with
    | cons hxz h' => exact .cons (hT _ _ _ hxy hxz) (ih h')

/-- Some of the items are related to some of the others, in the same order. -/
theorem exists_sublist_of_forall₂ {zs : List α} (h : List.Forall₂ R xs ys) (hs : zs.Sublist xs) :
    ∃ ws, List.Forall₂ R zs ws ∧ ws.Sublist ys := by
  induction hs generalizing ys with
  | slnil => exact ⟨[], .nil, List.nil_sublist ys⟩
  | cons x _ ih =>
    cases h with
    | cons _ h =>
      obtain ⟨ws, hws, hsub⟩ := ih h
      exact ⟨ws, hws, hsub.cons _⟩
  | cons_cons x _ ih =>
    cases h with
    | cons hx h =>
      obtain ⟨ws, hws, hsub⟩ := ih h
      exact ⟨_ :: ws, .cons hx hws, hsub.cons_cons _⟩

/-- Items that belong to lists put together belong to one of these lists each. -/
theorem exists_of_forall₂_flatten {parts : List (List α)} (h : List.Forall₂ R parts.flatten ys) :
    ∃ segments, ys = segments.flatten ∧ List.Forall₂ (List.Forall₂ R) parts segments := by
  induction parts generalizing ys with
  | nil =>
    obtain rfl := List.forall₂_nil_left_iff.1 h
    exact ⟨[], rfl, .nil⟩
  | cons part parts ih =>
    rw [List.flatten_cons] at h
    have hpart := (List.forall₂_take_append _ _ _ h.flip).flip
    obtain ⟨segments, hys, hs⟩ := ih (List.forall₂_drop_append _ _ _ h.flip).flip
    refine ⟨ys.take part.length :: segments, ?_, .cons hpart hs⟩
    rw [List.flatten_cons, ← hys, List.take_append_drop]

end

section

variable {ι κ α β γ δ : Type}

/-- Both steps end with the same error, or both have results, and these are related. -/
def Agree (R : α → β → Prop) (x : Merging ι α) (y : Merging κ β) : Prop :=
  match x, y with
  | Except.error e, Except.error e' => e = e'
  | Except.ok (a, _), Except.ok (b, _) => R a b
  | _, _ => False

variable {R : α → β → Prop} {S : γ → δ → Prop} {x : Merging ι α} {y : Merging κ β}

/-! ## Single steps -/

theorem agree_pure {a : α} {b : β} (h : R a b) :
    Agree R (pure a : Merging ι α) (pure b : Merging κ β) := h

theorem agree_fail (R : α → β → Prop) (e : MergeError) :
    Agree R (fail e : Merging ι α) (fail e : Merging κ β) := rfl

theorem agree_report {a : α} {b : β} (h : R a b) (ws ws' : List Warning) (images : List ι)
    (images' : List κ) : Agree R (report ws images a) (report ws' images' b) := h

theorem Agree.mono {S : α → β → Prop} (h : Agree R x y) (hrs : ∀ a b, R a b → S a b) :
    Agree S x y := by
  unfold Agree at h ⊢
  split at h
  · exact h
  · exact hrs _ _ h
  · exact h

theorem Agree.and {P : α → Prop} (h : Agree R x y) (hp : ∀ a log, x = Except.ok (a, log) → P a) :
    Agree (fun a b => R a b ∧ P a) x y := by
  unfold Agree at h ⊢
  split at h
  · exact h
  · exact ⟨h, hp _ _ rfl⟩
  · exact h

theorem agree_self {R : α → α → Prop} {x : Merging ι α}
    (h : ∀ a log, x = Except.ok (a, log) → R a a) : Agree R x x := by
  unfold Agree
  cases x with
  | error e => rfl
  | ok r => exact h r.1 r.2 rfl

theorem agree_ofFault {R : α → α → Prop} {x : Except Fault α} (h : ∀ a, x = .ok a → R a a) :
    Agree R (ofFault x : Merging ι α) (ofFault x : Merging κ α) := by
  cases x with
  | error f => rfl
  | ok a => exact h a rfl

/-- What is known of the results of two steps that agree. -/
theorem Agree.of_ok (h : Agree R x y) {a : α} {b : β} {log : Log ι} {log' : Log κ}
    (hx : x = Except.ok (a, log)) (hy : y = Except.ok (b, log')) : R a b := by
  subst hx hy
  exact h

/-! ## Steps in sequence -/

/-- **Sequences of steps that agree, agree.** -/
theorem Agree.bind {f : α → Merging ι γ} {g : β → Merging κ δ} (h : Agree R x y)
    (hfg : ∀ a b, R a b → Agree S (f a) (g b)) : Agree S (x >>= f) (y >>= g) := by
  cases x with
  | error e =>
    cases y with
    | error e' => exact h
    | ok s => cases h
  | ok r =>
    cases y with
    | error e' => cases h
    | ok s =>
      have hs := hfg r.1 s.1 h
      show Agree S (andThen (Except.ok r) f) (andThen (Except.ok s) g)
      unfold andThen
      cases hf : f r.1 with
      | error e =>
        cases hg : g s.1 with
        | error e' =>
          rw [hf, hg] at hs
          simpa [hf, hg] using hs
        | ok s' =>
          rw [hf, hg] at hs
          cases hs
      | ok r' =>
        cases hg : g s.1 with
        | error e' =>
          rw [hf, hg] at hs
          cases hs
        | ok s' =>
          rw [hf, hg] at hs
          simp only [hf, hg]
          exact hs

/-- A step for each item of two lists. The results are as many as the items. -/
theorem Agree.mapM_length {P : γ → δ → Prop} {f : γ → Merging ι α} {g : δ → Merging κ β}
    {xs : List γ} {ys : List δ} (h : List.Forall₂ P xs ys)
    (hfg : ∀ x y, P x y → Agree R (f x) (g y)) :
    Agree (fun as bs => as.length = xs.length ∧ List.Forall₂ R as bs) (xs.mapM f) (ys.mapM g) := by
  induction h with
  | nil =>
    rw [List.mapM_nil, List.mapM_nil]
    exact agree_pure ⟨rfl, .nil⟩
  | cons hxy _ ih =>
    rw [List.mapM_cons, List.mapM_cons]
    refine (hfg _ _ hxy).bind fun a b hab => ?_
    exact ih.bind fun as bs habs =>
      agree_pure ⟨congrArg Nat.succ habs.1, .cons hab habs.2⟩

theorem Agree.mapM {P : γ → δ → Prop} {f : γ → Merging ι α} {g : δ → Merging κ β} {xs : List γ}
    {ys : List δ} (h : List.Forall₂ P xs ys) (hfg : ∀ x y, P x y → Agree R (f x) (g y)) :
    Agree (List.Forall₂ R) (xs.mapM f) (ys.mapM g) :=
  (Agree.mapM_length h hfg).mono fun _ _ habs => habs.2

/-! ## Images -/

theorem Agree.mapImages {ι' κ' : Type} {f : α → List ι → List ι'} {g : β → List κ → List κ'}
    (h : Agree R x y) : Agree R (x.mapImages f) (y.mapImages g) := by
  cases x with
  | error e =>
    cases y with
    | error e' => exact h
    | ok s => cases h
  | ok r =>
    cases y with
    | error e' => cases h
    | ok s => exact h

theorem Agree.claimed {x : Merging ImageRequest α} {y : Merging ImageRequest β} (h : Agree R x y)
    (f : α → List (Path × Paragraph)) (g : β → List (Path × Paragraph)) :
    Agree R (x.claimed f) (y.claimed g) :=
  h.mapImages

theorem Agree.here {R : Paragraph → Paragraph → Prop} {x y : Merging ImageRequest Paragraph}
    (h : Agree R x y) : Agree R x.here y.here :=
  h.mapImages

theorem Agree.under {x : Merging PendingImage α} {y : Merging PendingImage β} (h : Agree R x y)
    (i j : Nat) : Agree R (x.under i) (y.under j) :=
  h.mapImages

theorem Agree.shifted {x : Merging PendingImage α} {y : Merging PendingImage β} (h : Agree R x y)
    (i j : Nat) : Agree R (x.shifted i) (y.shifted j) :=
  h.mapImages

theorem Agree.followedBy {R : Node → Node → Prop} {x y x' y' : Merging PendingImage (List Node)}
    (h : Agree (List.Forall₂ R) x y) (h' : Agree (List.Forall₂ R) x' y') :
    Agree (List.Forall₂ R) (x.followedBy x') (y.followedBy y') :=
  h.bind fun _ _ hfirst => (h'.shifted _ _).bind fun _ _ hsecond =>
    agree_pure (List.rel_append hfirst hsecond)

theorem Agree.forEach {P : γ → δ → Prop} {f : γ → Merging PendingImage α}
    {g : δ → Merging PendingImage β} {xs : List γ} {ys : List δ} (h : List.Forall₂ P xs ys)
    (hfg : ∀ x y, P x y → Agree R (f x) (g y)) :
    Agree (List.Forall₂ R) (forEach f xs) (forEach g ys) :=
  Agree.mapM (forall₂_zipIdx h 0) fun p q hpq => (hfg p.1 q.1 hpq.1).under _ _

end

end MailMerge.Merging

namespace MailMerge.Merging

variable {ι κ α β : Type}

/-- The step has the result. -/
def Gives (x : Merging ι α) (a : α) : Prop :=
  ∃ log, x = Except.ok (a, log)

theorem Gives.of_ok {x : Merging ι α} {a : α} {log : Log ι} (h : x = Except.ok (a, log)) :
    x.Gives a :=
  ⟨log, h⟩

theorem Gives.unique {x : Merging ι α} {a b : α} (h : x.Gives a) (h' : x.Gives b) : a = b := by
  obtain ⟨log, rfl⟩ := h
  obtain ⟨log', he⟩ := h'
  exact (Prod.mk.inj (Except.ok.inj he)).1

/-! ## Single steps -/

@[simp] theorem gives_pure_iff {a b : α} : (pure a : Merging ι α).Gives b ↔ a = b := by
  constructor
  · exact fun h => Gives.unique ⟨{}, rfl⟩ h
  · rintro rfl
    exact ⟨{}, rfl⟩

@[simp] theorem not_gives_fail (e : MergeError) (a : α) : ¬ (fail e : Merging ι α).Gives a := by
  rintro ⟨log, h⟩
  cases h

@[simp] theorem gives_report_iff {ws : List Warning} {images : List ι} {a b : α} :
    (report ws images a).Gives b ↔ a = b := by
  constructor
  · exact fun h => Gives.unique ⟨⟨ws, images⟩, rfl⟩ h
  · rintro rfl
    exact ⟨⟨ws, images⟩, rfl⟩

/-- A step keeps its result and its warnings if its images are handed over. -/
theorem exists_of_mapImages {x : Merging ι α} {f : α → List ι → List κ} {a : α} {log : Log κ}
    (h : x.mapImages f = Except.ok (a, log)) :
    ∃ log', x = Except.ok (a, log') ∧ log'.warnings = log.warnings := by
  cases x with
  | error e => cases h
  | ok r =>
    obtain ⟨rfl, rfl⟩ := Prod.mk.inj (Except.ok.inj h)
    exact ⟨r.2, rfl, rfl⟩

@[simp] theorem gives_mapImages_iff {x : Merging ι α} {f : α → List ι → List κ} {a : α} :
    (x.mapImages f).Gives a ↔ x.Gives a := by
  constructor
  · rintro ⟨log, h⟩
    obtain ⟨log', hx, -⟩ := exists_of_mapImages h
    exact ⟨log', hx⟩
  · rintro ⟨log, rfl⟩
    exact ⟨_, rfl⟩

/-! ## Steps in sequence -/

@[simp] theorem fail_bind (e : MergeError) (f : α → Merging ι β) :
    (fail e : Merging ι α) >>= f = fail e := rfl

@[simp] theorem map_fail (e : MergeError) (f : α → β) :
    f <$> (fail e : Merging ι α) = fail e := rfl

theorem ofFault_ok (a : α) : (ofFault (.ok a) : Merging ι α) = pure a := rfl

theorem report_bind (ws : List Warning) (images : List ι) (a : α)
    (f : α → Merging ι β) :
    report ws images a >>= f = report ws images () >>= fun _ => f a := rfl

theorem pure_eq_ok_iff {a b : α} {log : Log ι} :
    (pure a : Merging ι α) = Except.ok (b, log) ↔ a = b ∧ log = {} := by
  constructor
  · intro h
    obtain ⟨ha, hl⟩ := Prod.mk.inj (Except.ok.inj h)
    exact ⟨ha, hl.symm⟩
  · rintro ⟨rfl, rfl⟩
    rfl

theorem report_eq_ok_iff {ws : List Warning} {is : List ι} {a b : α} {log : Log ι} :
    report ws is a = Except.ok (b, log) ↔ a = b ∧ log = ⟨ws, is⟩ := by
  constructor
  · intro h
    obtain ⟨ha, hl⟩ := Prod.mk.inj (Except.ok.inj h)
    exact ⟨ha, hl.symm⟩
  · rintro ⟨rfl, rfl⟩
    rfl

theorem ofFault_eq_ok_iff {x : Except Fault α} {a : α} {log : Log ι} :
    (ofFault x : Merging ι α) = Except.ok (a, log) ↔ x = .ok a ∧ log = {} := by
  cases x with
  | ok b => rw [ofFault_ok, pure_eq_ok_iff, Except.ok.injEq]
  | error f =>
    constructor
    · exact fun h => nomatch h
    · exact fun h => nomatch h.1

/-- Steps in sequence succeed if both do, and their logs follow each other. -/
theorem bind_eq_ok_iff {x : Merging ι α} {f : α → Merging ι β} {b : β} {log : Log ι} :
    x >>= f = Except.ok (b, log) ↔
      ∃ a first second, x = Except.ok (a, first) ∧ f a = Except.ok (b, second) ∧
        log = first ++ second := by
  constructor
  · intro h
    cases x with
    | error e => cases h
    | ok r =>
      change andThen (Except.ok r) f = _ at h
      unfold andThen at h
      dsimp only at h
      split at h
      · cases h
      · next hf =>
        obtain ⟨rfl, rfl⟩ := Prod.mk.inj (Except.ok.inj h)
        exact ⟨r.1, r.2, _, rfl, hf, rfl⟩
  · rintro ⟨a, first, second, rfl, hf, rfl⟩
    change andThen (Except.ok (a, first)) f = _
    simp only [andThen, hf]
    rfl

/-- **Steps in sequence give what the second one gives for the result of the first.** -/
@[simp] theorem gives_bind_iff {x : Merging ι α} {f : α → Merging ι β} {b : β} :
    (x >>= f).Gives b ↔ ∃ a, x.Gives a ∧ (f a).Gives b := by
  constructor
  · rintro ⟨log, h⟩
    obtain ⟨a, first, second, hx, hf, -⟩ := bind_eq_ok_iff.1 h
    exact ⟨a, ⟨first, hx⟩, ⟨second, hf⟩⟩
  · rintro ⟨a, ⟨first, hx⟩, ⟨second, hf⟩⟩
    exact ⟨first ++ second, bind_eq_ok_iff.2 ⟨a, first, second, hx, hf, rfl⟩⟩

@[simp] theorem gives_map_iff {x : Merging ι α} {f : α → β} {b : β} :
    (f <$> x).Gives b ↔ ∃ a, x.Gives a ∧ f a = b := by
  rw [← bind_pure_comp, gives_bind_iff]
  simp only [gives_pure_iff]

/-- What comes after a step matters for the results of the step only. -/
theorem bind_congr_of_gives {x : Merging ι α} {f g : α → Merging ι β}
    (h : ∀ a, x.Gives a → f a = g a) : x >>= f = x >>= g := by
  cases x with
  | error e => rfl
  | ok r =>
    obtain ⟨a, log⟩ := r
    change andThen (Except.ok (a, log)) f = andThen (Except.ok (a, log)) g
    simp only [andThen, h a ⟨log, rfl⟩]

/-! ## Steps for the items of a list -/

theorem gives_mapM_iff {f : α → Merging ι β} {xs : List α} {ys : List β} :
    (xs.mapM f).Gives ys ↔ List.Forall₂ (fun x y => (f x).Gives y) xs ys := by
  induction xs generalizing ys with
  | nil =>
    rw [List.mapM_nil, gives_pure_iff, List.forall₂_nil_left_iff]
    exact eq_comm
  | cons x xs ih =>
    rw [List.mapM_cons, List.forall₂_cons_left_iff]
    simp only [gives_bind_iff, gives_pure_iff, ih]
    constructor
    · rintro ⟨y, hy, ys', hys, rfl⟩
      exact ⟨y, ys', hy, hys, rfl⟩
    · rintro ⟨y, ys', hy, hys, rfl⟩
      exact ⟨y, hy, ys', hys, rfl⟩

/-- Steps that are the same where they succeed succeed with the same results and logs. -/
theorem mapM_eq_ok_of {f g : α → Merging ι β} {xs : List α}
    (h : ∀ x ∈ xs, ∀ r, f x = Except.ok r → g x = Except.ok r) {ys : List β} {log : Log ι}
    (hf : xs.mapM f = Except.ok (ys, log)) : xs.mapM g = Except.ok (ys, log) := by
  induction xs generalizing ys log with
  | nil => exact hf
  | cons x xs ih =>
    rw [List.mapM_cons] at hf ⊢
    obtain ⟨y, first, second, hx, hrest, rfl⟩ := bind_eq_ok_iff.1 hf
    obtain ⟨ys', first', second', hxs, hpure, rfl⟩ := bind_eq_ok_iff.1 hrest
    have hx' := h x List.mem_cons_self _ hx
    have hxs' := ih (fun z hz => h z (List.mem_cons_of_mem x hz)) hxs
    exact bind_eq_ok_iff.2 ⟨y, first, _, hx', bind_eq_ok_iff.2 ⟨ys', first', second', hxs', hpure, rfl⟩, rfl⟩

theorem mapM_congr {f g : α → Merging ι β} {xs : List α} (h : ∀ x ∈ xs, f x = g x) :
    xs.mapM f = xs.mapM g := by
  induction xs with
  | nil => rfl
  | cons x xs ih =>
    rw [List.mapM_cons, List.mapM_cons, h x List.mem_cons_self,
      ih fun y hy => h y (List.mem_cons_of_mem x hy)]

/-! ## Images -/

@[simp] theorem gives_claimed_iff {z : Merging ImageRequest α} {f : α → List (Path × Paragraph)}
    {a : α} : (z.claimed f).Gives a ↔ z.Gives a :=
  gives_mapImages_iff

@[simp] theorem gives_under_iff {z : Merging PendingImage α} {i : Nat} {a : α} :
    (z.under i).Gives a ↔ z.Gives a :=
  gives_mapImages_iff

@[simp] theorem gives_shifted_iff {z : Merging PendingImage α} {i : Nat} {a : α} :
    (z.shifted i).Gives a ↔ z.Gives a :=
  gives_mapImages_iff

theorem gives_followedBy_iff {x y : Merging PendingImage (List Node)} {ns : List Node} :
    (x.followedBy y).Gives ns ↔ ∃ first second, x.Gives first ∧ y.Gives second ∧ first ++ second = ns := by
  simp only [followedBy, gives_bind_iff, gives_shifted_iff, gives_pure_iff]
  constructor
  · rintro ⟨first, hx, second, hy, rfl⟩
    exact ⟨first, second, hx, hy, rfl⟩
  · rintro ⟨first, second, hx, hy, rfl⟩
    exact ⟨first, hx, second, hy, rfl⟩

/-- A node that stays stands before what follows it. -/
theorem gives_followedBy_pure_iff {n : Node} {y : Merging PendingImage (List Node)} {ns : List Node} :
    (Merging.followedBy (pure [n]) y).Gives ns ↔ ∃ rest, y.Gives rest ∧ n :: rest = ns := by
  rw [gives_followedBy_iff]
  simp only [gives_pure_iff, exists_and_left, exists_eq_left']
  rfl

theorem gives_forEach_iff {f : α → Merging PendingImage β} {xs : List α} {ys : List β} :
    (forEach f xs).Gives ys ↔ List.Forall₂ (fun x y => (f x).Gives y) xs ys := by
  have hzip : ∀ (k : Nat) (xs : List α) (ys : List β),
      List.Forall₂ (fun p y => (f p.1).Gives y) (xs.zipIdx k) ys ↔
        List.Forall₂ (fun x y => (f x).Gives y) xs ys := by
    intro k xs
    induction xs generalizing k with
    | nil => simp
    | cons x xs ih =>
      intro ys
      rw [List.zipIdx_cons, List.forall₂_cons_left_iff, List.forall₂_cons_left_iff]
      simp only [ih]
  rw [forEach, gives_mapM_iff]
  simp only [gives_under_iff]
  exact hzip 0 xs ys

end MailMerge.Merging
