import MailMerge.Proofs.Nesting.Pairing

/-!
# Items that stand for several

Items may be written out: each plain item as any number of plain ones, every other item as a single
one that does the same. Writing items out changes nothing about the way they are paired up, nor about
the branches that are chosen.

**`Expansion.pairUp`**: items that are written out are paired up to the pieces written out.

**`Expansion.keep`**: what is kept of them is what is kept, written out.
-/

namespace MailMerge.Nesting

variable {α β : Type} {role : α → Role} {holds : α → Bool} {role' : β → Role} {holds' : β → Bool}

/-- How items are written out as items of another kind. -/
structure Expansion (role : α → Role) (holds : α → Bool) (role' : β → Role) (holds' : β → Bool) where
  items : α → List β
  /-- What stands for an item that is not plain. -/
  one : α → β
  items_one {a : α} : role a ≠ .plain → items a = [one a]
  role_one {a : α} : role a ≠ .plain → role' (one a) = role a
  holds_one {a : α} : role a ≠ .plain → holds' (one a) = holds a
  plain {a : α} {b : β} : role a = .plain → b ∈ items a → role' b = .plain

namespace Expansion

variable (e : Expansion role holds role' holds')

/-- Pieces written out. -/
def pieces : List (Piece α) → List (Piece β)
  | [] => []
  | .item a :: ps => (e.items a).map .item ++ pieces ps
  | .pair opener body closer :: ps =>
    .pair (e.one opener) (pieces body) (e.one closer) :: pieces ps

@[simp] theorem pieces_nil : e.pieces [] = [] := by
  rw [pieces]

@[simp] theorem pieces_item (a : α) (ps : List (Piece α)) :
    e.pieces (.item a :: ps) = (e.items a).map .item ++ e.pieces ps := by
  rw [pieces]

@[simp] theorem pieces_pair (opener : α) (body : List (Piece α)) (closer : α) (ps : List (Piece α)) :
    e.pieces (.pair opener body closer :: ps) =
      .pair (e.one opener) (e.pieces body) (e.one closer) :: e.pieces ps := by
  rw [pieces]

@[simp] theorem pieces_append (ps qs : List (Piece α)) :
    e.pieces (ps ++ qs) = e.pieces ps ++ e.pieces qs := by
  induction ps using Piece.induction with
  | nil => simp
  | item a ps ih => simp [ih]
  | pair opener body closer ps _ ih => simp [ih]

theorem depth_pieces (ps : List (Piece α)) : depth (e.pieces ps) = depth ps := by
  induction ps using Piece.induction with
  | nil => simp
  | item a ps ih => simp [ih]
  | pair opener body closer ps ihb ih => simp [ihb, ih]

/-! ## Pairing up -/

theorem role_of_mem {a : α} (ho : role a ≠ .opens) (hc : role a ≠ .closes) :
    ∀ b ∈ e.items a, role' b ≠ .opens ∧ role' b ≠ .closes := by
  intro b hb
  by_cases hp : role a = .plain
  · rw [e.plain hp hb]
    decide
  · rw [e.items_one hp, List.mem_singleton] at hb
    rw [hb, e.role_one hp]
    exact ⟨ho, hc⟩

theorem balanced_pieces {ps : List (Piece α)} (h : Balanced role ps) :
    Balanced role' (e.pieces ps) := by
  induction ps using Piece.induction with
  | nil => simp
  | item a ps ih =>
    obtain ⟨ho, hc, h⟩ := (balanced_item a ps).1 h
    have hitems : ∀ bs : List β, (∀ b ∈ bs, role' b ≠ .opens ∧ role' b ≠ .closes) →
        Balanced role' (bs.map Piece.item) := by
      intro bs hb
      induction bs with
      | nil => simp
      | cons b bs ihb =>
        have := hb b List.mem_cons_self
        simpa [this.1, this.2] using ihb fun x hx => hb x (List.mem_cons_of_mem b hx)
    rw [pieces_item, balanced_append]
    exact ⟨hitems _ (e.role_of_mem ho hc), ih h⟩
  | pair opener body closer ps ihb ih =>
    obtain ⟨ho, hc, hb, h⟩ := (balanced_pair opener body closer ps).1 h
    have ho' := e.role_one (a := opener) (by simp [ho])
    have hc' := e.role_one (a := closer) (by simp [hc])
    rw [pieces_pair, balanced_pair]
    exact ⟨ho'.trans ho, hc'.trans hc, ihb hb, ih h⟩

theorem settled_pieces {opened : Prop} {ps : List (Piece α)} (h : Settled role opened ps) :
    Settled role' opened (e.pieces ps) := by
  induction ps using Piece.induction generalizing opened with
  | nil => simp
  | item a ps ih =>
    obtain ⟨hc, h⟩ := (settled_item opened a ps).1 h
    rw [pieces_item]
    by_cases hp : role a = .plain
    · have hitems : ∀ (bs : List β), (∀ b ∈ bs, role' b = .plain) → ∀ qs,
          Settled role' opened qs → Settled role' opened (bs.map .item ++ qs) := by
        intro bs hb qs hq
        induction bs with
        | nil => exact hq
        | cons b bs ihb =>
          have := hb b List.mem_cons_self
          simpa [this] using ihb fun x hx => hb x (List.mem_cons_of_mem b hx)
      exact hitems _ (fun b => e.plain hp) _ (ih (by simpa [hp] using h))
    · rw [e.items_one hp, List.map_singleton, List.singleton_append, settled_item, e.role_one hp]
      exact ⟨hc, ih h⟩
  | pair opener body closer ps _ ih =>
    obtain ⟨ho, hc, hb, h⟩ := (settled_pair opened opener body closer ps).1 h
    have ho' := e.role_one (a := opener) (by simp [ho])
    have hc' := e.role_one (a := closer) (by simp [hc])
    rw [pieces_pair, settled_pair]
    exact ⟨ho'.trans ho, hc'.trans hc, e.balanced_pieces hb, ih h⟩

theorem flatten_pieces_balanced {ps : List (Piece α)} (h : Balanced role ps) :
    flatten (e.pieces ps) = (flatten ps).flatMap e.items := by
  induction ps using Piece.induction with
  | nil => simp
  | item a ps ih => simp [ih ((balanced_item a ps).1 h).2.2]
  | pair opener body closer ps ihb ih =>
    obtain ⟨ho, hc, hb, h⟩ := (balanced_pair opener body closer ps).1 h
    simp [ihb hb, ih h, e.items_one (a := opener) (by simp [ho]), e.items_one (a := closer) (by simp [hc])]

theorem flatten_pieces {opened : Prop} {ps : List (Piece α)} (h : Settled role opened ps) :
    flatten (e.pieces ps) = (flatten ps).flatMap e.items := by
  induction ps using Piece.induction generalizing opened with
  | nil => simp
  | item a ps ih => simp [ih ((settled_item opened a ps).1 h).2]
  | pair opener body closer ps _ ih =>
    obtain ⟨ho, hc, hb, h⟩ := (settled_pair opened opener body closer ps).1 h
    simp [e.flatten_pieces_balanced hb, ih h, e.items_one (a := opener) (by simp [ho]),
      e.items_one (a := closer) (by simp [hc])]

/-- **Items that are written out are paired up to the pieces written out.** -/
theorem pairUp (as : List α) : pairUp role' (as.flatMap e.items) = e.pieces (Nesting.pairUp role as) := by
  have hs := settled_pairUp role as
  have hf := e.flatten_pieces hs
  rw [flatten_pairUp] at hf
  rw [← hf, pairUp_flatten (e.settled_pieces hs)]

/-! ## Choosing branches -/

theorem branchesFrom_pieces {ps : List (Piece α)} (h : Balanced role ps) (head : α)
    (content : List (Piece α)) :
    branchesFrom role' (e.one head) (e.pieces content) (e.pieces ps) =
      (branchesFrom role head content ps).map fun b => ⟨e.one b.head, e.pieces b.content⟩ := by
  induction ps generalizing head content with
  | nil => simp [branchesFrom]
  | cons p ps ih =>
    have hps : Balanced role ps := ((balanced_append [p] ps).1 h).2
    by_cases hd : divides role p
    · cases p with
      | pair => cases hd
      | item a =>
        have hd : role a = .divides := hd
        have ha : role a ≠ .plain := by simp [hd]
        rw [branchesFrom_item hd, pieces_item, e.items_one ha, List.map_singleton,
          List.singleton_append, branchesFrom_item ((e.role_one ha).trans hd), List.map_cons, ← ih hps,
          pieces_nil]
    · have hp : ∀ q ∈ e.pieces [p], ¬ divides role' q := by
        cases p with
        | pair opener body closer =>
          intro q hq
          rw [pieces_pair, pieces_nil, List.mem_singleton] at hq
          rw [hq]
          exact id
        | item a =>
          intro q hq
          rw [pieces_item, pieces_nil, List.append_nil] at hq
          obtain ⟨b, hb, rfl⟩ := List.mem_map.1 hq
          obtain ⟨ho, hc, -⟩ := (balanced_item a ps).1 h
          have ha : role a = .plain := by
            cases hr : role a with
            | divides => exact absurd hr hd
            | opens => exact absurd hr ho
            | closes => exact absurd hr hc
            | plain => rfl
          show role' b ≠ .divides
          rw [e.plain ha hb]
          decide
      rw [← List.singleton_append, pieces_append, branchesFrom_append hp, ← pieces_append, ih hps,
        List.singleton_append, branchesFrom_cons hd]

theorem chosen_pieces {opener : α} (ho : role opener ≠ .plain) {body : List (Piece α)}
    (h : Balanced role body) :
    chosen role' holds' (e.one opener) (e.pieces body) = e.pieces (chosen role holds opener body) := by
  have hb := e.branchesFrom_pieces h opener []
  rw [pieces_nil] at hb
  have hholds : ∀ b ∈ branches role opener body, holds' (e.one b.head) = holds b.head := by
    intro b hm
    refine e.holds_one ?_
    rcases head_of_mem_branchesFrom hm with he | ⟨-, hd⟩
    · rwa [he]
    · simp [hd]
  have hfind : ((branches role opener body).find? fun b => holds' (e.one b.head)) =
      (branches role opener body).find? fun b => holds b.head := by
    generalize branches role opener body = bs at hholds
    induction bs with
    | nil => rfl
    | cons b bs ih =>
      rw [List.find?_cons, List.find?_cons, hholds b List.mem_cons_self,
        ih fun x hx => hholds x (List.mem_cons_of_mem b hx)]
  unfold chosen
  rw [branches, hb, List.find?_map]
  show Option.elim (((branches role opener body).find? fun b => holds' (e.one b.head)).map _) _ _ = _
  rw [hfind]
  cases (branches role opener body).find? fun b => holds b.head with
  | none => simp
  | some b => rfl

/-- **What is kept of the pieces written out** is what is kept, written out. -/
theorem keep_pieces {opened : Prop} {ps : List (Piece α)} (h : Settled role opened ps) :
    keep role' holds' (e.pieces ps) = (keep role holds ps).flatMap e.items := by
  fun_induction keep role holds ps generalizing opened with
  | case1 => simp
  | case2 a ps ih =>
    have hi := ih ((settled_item opened a ps).1 h).2
    rw [pieces_item, keep_append, keep_map_item, hi, List.flatMap_cons]
  | case3 opener body closer ps ihc ih =>
    obtain ⟨ho, -, hb, h⟩ := (settled_pair opened opener body closer ps).1 h
    have hchosen := ihc ((hb.chosen holds opener).settled False)
    rw [pieces_pair, keep_pair, e.chosen_pieces (by simp [ho]) hb, hchosen, ih h, List.flatMap_append]

/-! ## From the pieces written out -/

/-- The choices among pieces written out are those among the pieces. -/
theorem choices_pieces {opened : Prop} {ps : List (Piece α)} (h : Settled role opened ps) :
    choices role' (e.pieces ps) = (choices role ps).map (·.map e.one) := by
  have hitems (bs : List β) (qs : List (Piece β)) :
      choices role' (bs.map .item ++ qs) = choices role' qs := by
    induction bs with
    | nil => rfl
    | cons b bs ih => rw [List.map_cons, List.cons_append, choices_item, ih]
  induction ps using Piece.induction generalizing opened with
  | nil => simp
  | item a ps ih => rw [pieces_item, hitems, ih ((settled_item opened a ps).1 h).2, choices_item]
  | pair opener body closer ps ihb ih =>
    obtain ⟨-, -, hb, h⟩ := (settled_pair opened opener body closer ps).1 h
    have hbranches := e.branchesFrom_pieces hb opener []
    rw [pieces_nil] at hbranches
    rw [pieces_pair, choices_pair, choices_pair, ihb (hb.settled False), ih h, branches, hbranches]
    simp [branches]

/-- Pieces are balanced if they are when they are written out. -/
theorem balanced_of_pieces {opened : Prop} {ps : List (Piece α)} (hs : Settled role opened ps)
    (h : Balanced role' (e.pieces ps)) : Balanced role ps := by
  induction ps using Piece.induction generalizing opened with
  | nil => simp
  | item a ps ih =>
    rw [pieces_item, balanced_append] at h
    refine (balanced_item a ps).2 ?_
    have hrest := ih ((settled_item opened a ps).1 hs).2 h.2
    by_cases hp : role a = .plain
    · simp [hp, hrest]
    · rw [e.items_one hp, List.map_singleton, balanced_item, e.role_one hp] at h
      exact ⟨h.1.1, h.1.2.1, hrest⟩
  | pair opener body closer ps _ ih =>
    obtain ⟨ho, hc, hb, hs⟩ := (settled_pair opened opener body closer ps).1 hs
    rw [pieces_pair, balanced_pair] at h
    exact (balanced_pair opener body closer ps).2 ⟨ho, hc, hb, ih hs h.2.2.2⟩

/-- Nothing divides pieces if nothing does when they are written out. -/
theorem not_divides_of_pieces {ps : List (Piece α)} (h : ∀ q ∈ e.pieces ps, ¬ divides role' q) :
    ∀ p ∈ ps, ¬ divides role p := by
  induction ps with
  | nil => simp
  | cons p ps ih =>
    rw [← List.singleton_append, pieces_append] at h
    intro q hq
    rcases List.mem_cons.1 hq with rfl | hq
    · cases q with
      | pair => exact id
      | item a =>
        intro hd
        have hd : role a = .divides := hd
        have ha : role a ≠ .plain := by simp [hd]
        refine h (.item (e.one a)) (List.mem_append_left _ ?_) ((e.role_one ha).trans hd)
        rw [pieces_item, e.items_one ha]
        exact List.mem_cons_self
    · exact ih (fun q hq => h q (List.mem_append_right _ hq)) q hq

end Expansion

end MailMerge.Nesting
