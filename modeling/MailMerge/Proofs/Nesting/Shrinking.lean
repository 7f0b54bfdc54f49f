import MailMerge.Proofs.Nesting.Pairing

/-!
# Evaluation from the inside

Pieces shrink when every innermost pair, one whose body holds no other pair, is replaced by its
chosen branch. The branches of the pairs around it stay what they are, for a chosen branch holds no
divider of its own. So the order of evaluation does not matter.

A property of lists of items is checked between markers if lists that have it can be put together,
and what stands before an item that is not plain, and every end of the list, has it as well. Such a
property is one that branches have when the whole has it, since every branch stands between two
items that are not plain.

**`Divisible.keep_append`**: what evaluation keeps has such a property, if all items together have it.

**`keep_shrink`**: shrunken pieces keep the same items.

**`depth_shrink`**: pairs are nested one less deep.
-/

namespace MailMerge.Nesting

variable {α : Type} {role : α → Role} {holds : α → Bool}

/-- A property of lists of items that is checked between markers. -/
structure Divisible (role : α → Role) (P : List α → Prop) : Prop where
  nil : P []
  append {as bs : List α} : P as → P bs → P (as ++ bs)
  left {as bs : List α} {a : α} : role a ≠ .plain → P (as ++ a :: bs) → P as
  right {as bs : List α} : P (as ++ bs) → P bs

namespace Divisible

variable {P : List α → Prop} {as bs : List α} {a : α}

theorem after (h : Divisible role P) (hp : P (as ++ a :: bs)) : P bs := by
  rw [List.append_cons] at hp
  exact h.right hp

theorem branch (h : Divisible role P) {head : α} (content : List (Piece α)) {ps : List (Piece α)}
    {b : Branch α} (hp : P (flatten (content ++ ps)))
    (hb : b ∈ branchesFrom role head content ps) : P (flatten b.content) := by
  induction ps generalizing head content with
  | nil =>
    obtain rfl := List.mem_singleton.1 hb
    simpa using hp
  | cons p ps ih =>
    by_cases hd : divides role p
    · cases p with
      | pair => cases hd
      | item a =>
        have ha : role a = .divides := hd
        rw [flatten_append, flatten_item] at hp
        rw [branchesFrom_item hd] at hb
        rcases List.mem_cons.1 hb with rfl | hb
        · exact h.left (by simp [ha]) hp
        · exact ih [] (h.after hp) hb
    · rw [branchesFrom_cons hd] at hb
      exact ih (content ++ [p]) (by simpa using hp) hb

theorem chosen (h : Divisible role P) {body : List (Piece α)} (hp : P (flatten body)) (opener : α) :
    P (flatten (chosen role holds opener body)) := by
  rcases chosen_eq role holds opener body with he | ⟨b, hb, he⟩
  · rw [he, flatten_nil]
    exact h.nil
  · rw [he]
    exact h.branch [] hp hb

/-- **What is kept has the property.** Items that stand before a pair end at its opener, so they are
carried along up to there. -/
theorem keep_append (h : Divisible role P) {opened : Prop} {ps : List (Piece α)}
    (hs : Settled role opened ps) (as : List α) (hp : P (as ++ flatten ps)) :
    P (as ++ keep role holds ps) := by
  fun_induction keep role holds ps generalizing opened as with
  | case1 => simpa using hp
  | case2 a ps ih =>
    have hrest := ih ((settled_item opened a ps).1 hs).2 (as ++ [a]) (by simpa using hp)
    simpa using hrest
  | case3 opener body closer ps ihc ih =>
    obtain ⟨ho, hc, hb, hs⟩ := (settled_pair opened opener body closer ps).1 hs
    rw [flatten_pair] at hp
    have hbody : P (flatten body) := h.left (by simp [hc]) (h.after hp)
    have hchosen := ihc ((hb.chosen holds opener).settled False) [] (h.chosen hbody opener)
    have hps := ih hs [] (h.after (h.after hp))
    exact h.append (h.left (by simp [ho]) hp) (h.append hchosen hps)

end Divisible

/-! ## Items that are kept of balanced pieces -/

/-- If nothing divides them, only plain items are kept of balanced pieces. -/
theorem plain_of_mem_keep {ps : List (Piece α)} (hb : Balanced role ps)
    (hd : ∀ p ∈ ps, ¬ divides role p) {a : α} (ha : a ∈ keep role holds ps) : role a = .plain := by
  fun_induction keep role holds ps with
  | case1 => cases ha
  | case2 b ps ih =>
    obtain ⟨ho, hc, hb⟩ := (balanced_item b ps).1 hb
    rcases List.mem_cons.1 ha with rfl | ha
    · have hn : role a ≠ .divides := hd (.item a) List.mem_cons_self
      cases hr : role a <;> simp_all
    · exact ih hb (fun p hp => hd p (List.mem_cons_of_mem _ hp)) ha
  | case3 opener body closer ps ihc ih =>
    obtain ⟨-, -, hbody, hb⟩ := (balanced_pair opener body closer ps).1 hb
    rcases List.mem_append.1 ha with ha | ha
    · exact ihc (hbody.chosen holds opener) (fun p hp => not_divides_of_mem_chosen hp) ha
    · exact ih hb (fun p hp => hd p (List.mem_cons_of_mem _ hp)) ha

/-- Evaluation asks only for choices of the pieces. -/
theorem mem_choices_of_mem_trace {ps : List (Piece α)} {heads : List α}
    (h : .asked heads ∈ trace role holds ps) : heads ∈ choices role ps := by
  fun_induction trace role holds ps with
  | case1 => cases h
  | case2 a ps ih =>
    rw [choices_item]
    rcases List.mem_cons.1 h with h | h
    · cases h
    · exact ih h
  | case3 opener body closer ps ihc ih =>
    rw [choices_pair]
    rcases List.mem_cons.1 h with h | h
    · obtain rfl := Visit.asked.inj h
      exact List.mem_cons_self
    · rcases List.mem_append.1 h with h | h
      · obtain ⟨before, after, he⟩ := chosen_part role holds opener body
        refine List.mem_cons_of_mem _ (List.mem_append_left _ ?_)
        rw [he, choices_append, choices_append]
        exact List.mem_append_left _ (List.mem_append_right _ (ihc h))
      · exact List.mem_cons_of_mem _ (List.mem_append_right _ (ih h))

end MailMerge.Nesting

/-! ## Shrunken pieces -/

namespace MailMerge.Nesting

variable {α : Type} (role : α → Role) (holds : α → Bool)

/-- The pieces with each innermost pair replaced by its chosen branch. -/
def shrink : List (Piece α) → List (Piece α)
  | [] => []
  | .item a :: ps => .item a :: shrink ps
  | .pair opener body closer :: ps =>
    (if depth body = 0 then chosen role holds opener body else [.pair opener (shrink body) closer])
      ++ shrink ps

variable {role holds}

@[simp] theorem shrink_nil : shrink role holds [] = [] := by
  rw [shrink]

@[simp] theorem shrink_item (a : α) (ps : List (Piece α)) :
    shrink role holds (.item a :: ps) = .item a :: shrink role holds ps := by
  rw [shrink]

theorem shrink_innermost {body : List (Piece α)} (h : depth body = 0) (opener closer : α)
    (ps : List (Piece α)) :
    shrink role holds (.pair opener body closer :: ps) =
      chosen role holds opener body ++ shrink role holds ps := by
  rw [shrink, if_pos h]

theorem shrink_outer {body : List (Piece α)} (h : depth body ≠ 0) (opener closer : α)
    (ps : List (Piece α)) :
    shrink role holds (.pair opener body closer :: ps) =
      .pair opener (shrink role holds body) closer :: shrink role holds ps := by
  rw [shrink, if_neg h]
  rfl

theorem shrink_cons (p : Piece α) (ps : List (Piece α)) :
    shrink role holds (p :: ps) = shrink role holds [p] ++ shrink role holds ps := by
  cases p with
  | item a => simp
  | pair opener body closer => simp [shrink]

@[simp] theorem shrink_append (ps qs : List (Piece α)) :
    shrink role holds (ps ++ qs) = shrink role holds ps ++ shrink role holds qs := by
  induction ps with
  | nil => simp
  | cons p ps ih => rw [List.cons_append, shrink_cons, ih, shrink_cons p ps, List.append_assoc]

theorem shrink_map_item (as : List α) :
    shrink role holds (as.map Piece.item) = as.map Piece.item := by
  induction as with
  | nil => simp
  | cons a as ih => simp [ih]

/-! ## Branches -/

theorem not_divides_of_mem_shrink {p q : Piece α} (h : ¬ divides role p)
    (hq : q ∈ shrink role holds [p]) : ¬ divides role q := by
  cases p with
  | item a =>
    obtain rfl : q = .item a := by simpa using hq
    exact h
  | pair opener body closer =>
    by_cases hd : depth body = 0
    · rw [shrink_innermost hd, shrink_nil, List.append_nil] at hq
      exact not_divides_of_mem_chosen hq
    · obtain rfl : q = .pair opener (shrink role holds body) closer := by
        simpa [shrink_outer hd] using hq
      exact id

theorem branchesFrom_shrink (holds : α → Bool) (head : α) (content ps : List (Piece α)) :
    branchesFrom role head (shrink role holds content) (shrink role holds ps) =
      (branchesFrom role head content ps).map fun b => ⟨b.head, shrink role holds b.content⟩ := by
  induction ps generalizing head content with
  | nil => rw [shrink_nil]; rfl
  | cons p ps ih =>
    by_cases hp : divides role p
    · cases p with
      | pair => cases hp
      | item a =>
        have := ih a []
        rw [shrink_nil] at this
        rw [shrink_item, branchesFrom_item hp, branchesFrom_item hp, this]
        rfl
    · rw [shrink_cons, branchesFrom_append fun q => not_divides_of_mem_shrink hp, ← shrink_append,
        ih, branchesFrom_cons hp]

theorem branches_shrink (opener : α) (body : List (Piece α)) :
    branches role opener (shrink role holds body) =
      (branches role opener body).map fun b => ⟨b.head, shrink role holds b.content⟩ := by
  simpa [branches] using branchesFrom_shrink holds opener [] body

/-- The branch of shrunken pieces that is chosen is the one that was chosen before, shrunken. -/
theorem chosen_shrink (opener : α) (body : List (Piece α)) :
    chosen role holds opener (shrink role holds body) =
      shrink role holds (chosen role holds opener body) := by
  unfold chosen
  rw [branches_shrink, List.find?_map]
  show Option.elim (Option.map _ ((branches role opener body).find? fun b => holds b.head)) _ _ = _
  cases (branches role opener body).find? fun b => holds b.head with
  | none => simp
  | some b => rfl

/-! ## What shrinking keeps -/

/-- **The order of evaluation does not matter.** -/
theorem keep_shrink (ps : List (Piece α)) :
    keep role holds (shrink role holds ps) = keep role holds ps := by
  fun_induction keep role holds ps with
  | case1 => simp
  | case2 a ps ih => rw [shrink_item, keep_item, ih]
  | case3 opener body closer ps ihc ih =>
    by_cases hd : depth body = 0
    · rw [shrink_innermost hd, keep_append, ih]
    · rw [shrink_outer hd, keep_pair, chosen_shrink, ihc, ih]

/-- **Pairs are nested one less deep.** -/
theorem depth_shrink (ps : List (Piece α)) : depth (shrink role holds ps) = depth ps - 1 := by
  induction ps using Piece.induction with
  | nil => simp
  | item a ps ih => rw [shrink_item, depth_item, depth_item, ih]
  | pair opener body closer ps ihb ih =>
    by_cases hd : depth body = 0
    · have := depth_chosen role holds opener body
      rw [shrink_innermost hd, depth_append, depth_pair, ih]
      omega
    · rw [shrink_outer hd, depth_pair, depth_pair, ihb, ih]
      omega

/-- The choices that are left were there before. -/
theorem mem_choices_of_mem_shrink {ps : List (Piece α)} {heads : List α}
    (h : heads ∈ choices role (shrink role holds ps)) : heads ∈ choices role ps := by
  induction ps using Piece.induction with
  | nil => simp at h
  | item a ps ih =>
    rw [shrink_item, choices_item] at h
    rw [choices_item]
    exact ih h
  | pair opener body closer ps ihb ih =>
    rw [choices_pair, List.mem_cons, List.mem_append]
    by_cases hd : depth body = 0
    · rw [shrink_innermost hd, choices_append] at h
      rcases List.mem_append.1 h with h | h
      · obtain ⟨before, after, he⟩ := chosen_part role holds opener body
        refine .inr (.inl ?_)
        rw [he, choices_append, choices_append]
        simp [h]
      · exact .inr (.inr (ih h))
    · rw [shrink_outer hd, choices_pair, branches_shrink, List.map_map] at h
      rcases List.mem_cons.1 h with h | h
      · exact .inl h
      · rcases List.mem_append.1 h with h | h
        · exact .inr (.inl (ihb h))
        · exact .inr (.inr (ih h))

theorem Balanced.shrink {ps : List (Piece α)} (h : Balanced role ps) :
    Balanced role (shrink role holds ps) := by
  induction ps using Piece.induction with
  | nil => simp
  | item a ps ih =>
    obtain ⟨ho, hc, h⟩ := (balanced_item a ps).1 h
    rw [shrink_item, balanced_item]
    exact ⟨ho, hc, ih h⟩
  | pair opener body closer ps ihb ih =>
    obtain ⟨ho, hc, hb, h⟩ := (balanced_pair opener body closer ps).1 h
    by_cases hd : depth body = 0
    · rw [shrink_innermost hd, balanced_append]
      exact ⟨hb.chosen holds opener, ih h⟩
    · rw [shrink_outer hd, balanced_pair]
      exact ⟨ho, hc, ihb hb, ih h⟩

theorem Settled.shrink {opened : Prop} {ps : List (Piece α)} (h : Settled role opened ps) :
    Settled role opened (shrink role holds ps) := by
  induction ps using Piece.induction generalizing opened with
  | nil => simp
  | item a ps ih =>
    obtain ⟨hc, h⟩ := (settled_item opened a ps).1 h
    rw [shrink_item, settled_item]
    exact ⟨hc, ih h⟩
  | pair opener body closer ps _ ih =>
    obtain ⟨ho, hc, hb, h⟩ := (settled_pair opened opener body closer ps).1 h
    by_cases hd : depth body = 0
    · rw [shrink_innermost hd, (hb.chosen holds opener).settled_append]
      exact ih h
    · rw [shrink_outer hd, settled_pair]
      exact ⟨ho, hc, hb.shrink, ih h⟩

/-- The items of shrunken pieces pair up to the same pieces again. -/
theorem pairUp_flatten_shrink (as : List α) :
    pairUp role (flatten (shrink role holds (pairUp role as))) = shrink role holds (pairUp role as) :=
  pairUp_flatten (settled_pairUp role as).shrink

end MailMerge.Nesting
