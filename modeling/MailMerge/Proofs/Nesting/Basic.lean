import Mathlib.Data.List.Basic

/-!
# Nested conditionals

What the conditionals of a text and those over whole nodes have in common. Items of any kind are
paired up to pieces: an item by itself, or a pair of an opener and its closer with the pieces
between them, its body. The dividers among the pieces of a body cut it into branches, of which the
first one whose head holds is chosen.

`keep` evaluates pieces from the outside to the inside: a pair stands for its chosen branch. `trace`
lists what that evaluation meets on its way (`filterMap_trace`).
-/

namespace MailMerge.Nesting

/-- What an item does to the conditionals around it. -/
inductive Role where
  | opens
  | divides
  | closes
  | plain
deriving DecidableEq, Repr

/-- An item by itself, or a pair with the pieces between opener and closer. -/
inductive Piece (α : Type) where
  | item (a : α)
  | pair (opener : α) (body : List (Piece α)) (closer : α)

variable {α : Type}

namespace Piece

/-- Induction on pieces: over the body of each pair and over the pieces after it. -/
@[elab_as_elim]
theorem induction {motive : List (Piece α) → Prop} (nil : motive [])
    (item : ∀ a ps, motive ps → motive (.item a :: ps))
    (pair : ∀ opener body closer ps, motive body → motive ps → motive (.pair opener body closer :: ps))
    (ps : List (Piece α)) : motive ps :=
  match ps with
  | [] => nil
  | .item a :: ps => item a ps (induction nil item pair ps)
  | .pair opener body closer :: ps =>
    pair opener body closer ps (induction nil item pair body) (induction nil item pair ps)

end Piece

/-! ## Pieces and items -/

/-- The items that the pieces are made of, in order. -/
def flatten : List (Piece α) → List α
  | [] => []
  | .item a :: ps => a :: flatten ps
  | .pair opener body closer :: ps => opener :: (flatten body ++ closer :: flatten ps)

/-- How deep pairs are nested. -/
def depth : List (Piece α) → Nat
  | [] => 0
  | .item _ :: ps => depth ps
  | .pair _ body _ :: ps => max (depth body + 1) (depth ps)

@[simp] theorem flatten_nil : flatten ([] : List (Piece α)) = [] := by
  rw [flatten]

@[simp] theorem flatten_item (a : α) (ps : List (Piece α)) : flatten (.item a :: ps) = a :: flatten ps := by
  rw [flatten]

@[simp] theorem flatten_pair (opener : α) (body : List (Piece α)) (closer : α) (ps : List (Piece α)) :
    flatten (.pair opener body closer :: ps) =
      opener :: (flatten body ++ closer :: flatten ps) := by
  rw [flatten]

@[simp] theorem depth_nil : depth ([] : List (Piece α)) = 0 := by
  rw [depth]

@[simp] theorem depth_item (a : α) (ps : List (Piece α)) : depth (.item a :: ps) = depth ps := by
  rw [depth]

@[simp] theorem depth_pair (opener : α) (body : List (Piece α)) (closer : α) (ps : List (Piece α)) :
    depth (.pair opener body closer :: ps) = max (depth body + 1) (depth ps) := by
  rw [depth]

@[simp] theorem flatten_append (ps qs : List (Piece α)) :
    flatten (ps ++ qs) = flatten ps ++ flatten qs := by
  induction ps using Piece.induction with
  | nil => simp
  | item a ps ih => simp [ih]
  | pair opener body closer ps _ ih => simp [ih]

@[simp] theorem depth_append (ps qs : List (Piece α)) : depth (ps ++ qs) = max (depth ps) (depth qs) := by
  induction ps using Piece.induction with
  | nil => simp
  | item a ps ih => simp [ih]
  | pair opener body closer ps _ ih => simp only [List.cons_append, depth_pair, ih]; omega

@[simp] theorem flatten_map_item (as : List α) : flatten (as.map Piece.item) = as := by
  induction as with
  | nil => simp
  | cons a as ih => simp [ih]

@[simp] theorem depth_map_item (as : List α) : depth (as.map Piece.item) = 0 := by
  induction as with
  | nil => simp
  | cons a as ih => simp [ih]

theorem eq_map_item_of_depth {ps : List (Piece α)} (h : depth ps = 0) :
    ps = (flatten ps).map Piece.item := by
  induction ps using Piece.induction with
  | nil => simp
  | item a ps ih =>
    rw [depth_item] at h
    rw [flatten_item, List.map_cons, ← ih h]
  | pair opener body closer ps _ _ =>
    rw [depth_pair] at h
    omega

/-! ## Branches -/

/-- A branch of a pair: the opener or divider that begins it, and its pieces. -/
structure Branch (α : Type) where
  head : α
  content : List (Piece α)

variable (role : α → Role)

/-- The branches of a body, in the first of which a head and some content stand before it. -/
def branchesFrom (head : α) (content : List (Piece α)) : List (Piece α) → List (Branch α)
  | [] => [⟨head, content⟩]
  | .item a :: ps =>
    if role a = .divides then
      ⟨head, content⟩ :: branchesFrom a [] ps
    else
      branchesFrom head (content ++ [.item a]) ps
  | p :: ps => branchesFrom head (content ++ [p]) ps

/-- The branches of a pair. -/
def branches (opener : α) (body : List (Piece α)) : List (Branch α) :=
  branchesFrom role opener [] body

/-- The content of the first branch whose head holds, if there is one. -/
def chosen (holds : α → Bool) (opener : α) (body : List (Piece α)) : List (Piece α) :=
  ((branches role opener body).find? fun b => holds b.head).elim [] (·.content)

/-- The heads of the branches of all pairs, at any depth. -/
def choices : List (Piece α) → List (List α)
  | [] => []
  | .item _ :: ps => choices ps
  | .pair opener body _ :: ps =>
    (branches role opener body).map (·.head) :: (choices body ++ choices ps)

variable {role}

@[simp] theorem choices_nil : choices role [] = [] := by
  rw [choices]

@[simp] theorem choices_item (a : α) (ps : List (Piece α)) :
    choices role (.item a :: ps) = choices role ps := by
  rw [choices]

@[simp] theorem choices_pair (opener : α) (body : List (Piece α)) (closer : α) (ps : List (Piece α)) :
    choices role (.pair opener body closer :: ps) =
      (branches role opener body).map (·.head) :: (choices role body ++ choices role ps) := by
  rw [choices]

theorem forall_choices_pair {p : List α → Prop} {opener closer : α} {body ps : List (Piece α)} :
    (∀ heads ∈ choices role (.pair opener body closer :: ps), p heads) ↔
      p ((branches role opener body).map (·.head)) ∧ (∀ heads ∈ choices role body, p heads) ∧
        ∀ heads ∈ choices role ps, p heads := by
  rw [choices_pair, List.forall_mem_cons, List.forall_mem_append]

@[simp] theorem choices_append (ps qs : List (Piece α)) :
    choices role (ps ++ qs) = choices role ps ++ choices role qs := by
  induction ps using Piece.induction with
  | nil => simp
  | item a ps ih => simp [ih]
  | pair opener body closer ps _ ih => simp [ih]

/-- The piece is a divider by itself. -/
def divides (role : α → Role) : Piece α → Prop
  | .item a => role a = .divides
  | .pair .. => False

theorem branchesFrom_item {a : α} (h : role a = .divides) (head : α) (content ps : List (Piece α)) :
    branchesFrom role head content (.item a :: ps) =
      ⟨head, content⟩ :: branchesFrom role a [] ps := by
  rw [branchesFrom, if_pos h]

theorem branchesFrom_cons {p : Piece α} (h : ¬ divides role p) (head : α)
    (content ps : List (Piece α)) :
    branchesFrom role head content (p :: ps) = branchesFrom role head (content ++ [p]) ps := by
  cases p with
  | item a => rw [branchesFrom, if_neg (show role a ≠ .divides from h)]
  | pair opener body closer => rw [branchesFrom]; simp

theorem branchesFrom_append {qs : List (Piece α)} (h : ∀ q ∈ qs, ¬ divides role q) (head : α)
    (content ps : List (Piece α)) :
    branchesFrom role head content (qs ++ ps) = branchesFrom role head (content ++ qs) ps := by
  induction qs generalizing content with
  | nil => simp
  | cons q qs ih =>
    rw [List.cons_append, branchesFrom_cons (h q List.mem_cons_self),
      ih fun q' hq => h q' (List.mem_cons_of_mem q hq), List.append_assoc]
    rfl

/-- The content of a branch is a part of what was divided. -/
theorem content_of_mem_branchesFrom {head : α} {content ps : List (Piece α)} {b : Branch α}
    (h : b ∈ branchesFrom role head content ps) :
    ∃ before after, content ++ ps = before ++ b.content ++ after := by
  induction ps generalizing head content with
  | nil =>
    obtain rfl := List.mem_singleton.1 h
    exact ⟨[], [], by simp⟩
  | cons p ps ih =>
    by_cases hp : divides role p
    · cases p with
      | pair => cases hp
      | item a =>
        rw [branchesFrom_item hp] at h
        rcases List.mem_cons.1 h with rfl | h
        · exact ⟨[], .item a :: ps, by simp⟩
        · obtain ⟨before, after, he⟩ := ih h
          refine ⟨content ++ .item a :: before, after, ?_⟩
          simpa using congrArg (content ++ .item a :: ·) he
    · rw [branchesFrom_cons hp] at h
      obtain ⟨before, after, he⟩ := ih h
      exact ⟨before, after, by simpa using he⟩

/-- No piece of a branch is a divider by itself. -/
theorem not_divides_of_mem_branchesFrom {head : α} {content ps : List (Piece α)} {b : Branch α}
    (hc : ∀ p ∈ content, ¬ divides role p) (h : b ∈ branchesFrom role head content ps) :
    ∀ p ∈ b.content, ¬ divides role p := by
  induction ps generalizing head content with
  | nil =>
    obtain rfl := List.mem_singleton.1 h
    exact hc
  | cons q ps ih =>
    by_cases hq : divides role q
    · cases q with
      | pair => cases hq
      | item a =>
        rw [branchesFrom_item hq] at h
        rcases List.mem_cons.1 h with rfl | h
        · exact hc
        · exact ih (by simp) h
    · rw [branchesFrom_cons hq] at h
      refine ih ?_ h
      intro p hp
      rcases List.mem_append.1 hp with hp | hp
      · exact hc p hp
      · rwa [List.mem_singleton.1 hp]

/-- A branch begins with the given head or with a divider. -/
theorem head_of_mem_branchesFrom {head : α} {content ps : List (Piece α)} {b : Branch α}
    (h : b ∈ branchesFrom role head content ps) :
    b.head = head ∨ (b.head ∈ flatten ps ∧ role b.head = .divides) := by
  induction ps generalizing head content with
  | nil =>
    obtain rfl := List.mem_singleton.1 h
    exact .inl rfl
  | cons p ps ih =>
    by_cases hp : divides role p
    · cases p with
      | pair => cases hp
      | item a =>
        rw [branchesFrom_item hp] at h
        rw [flatten_item]
        rcases List.mem_cons.1 h with rfl | h
        · exact .inl rfl
        · rcases ih h with he | ⟨hm, hr⟩
          · exact .inr ⟨he ▸ List.mem_cons_self, he ▸ hp⟩
          · exact .inr ⟨List.mem_cons_of_mem a hm, hr⟩
    · rw [branchesFrom_cons hp] at h
      rcases ih h with he | ⟨hm, hr⟩
      · exact .inl he
      · refine .inr ⟨?_, hr⟩
        rw [show p :: ps = [p] ++ ps from rfl, flatten_append]
        exact List.mem_append_right _ hm

/-! ## The chosen branch -/

variable {holds : α → Bool}

/-- What is chosen is empty or the content of a branch. -/
theorem chosen_eq (role : α → Role) (holds : α → Bool) (opener : α) (body : List (Piece α)) :
    chosen role holds opener body = [] ∨
      ∃ b ∈ branches role opener body, chosen role holds opener body = b.content := by
  unfold chosen
  cases hb : (branches role opener body).find? fun b => holds b.head with
  | none => exact .inl rfl
  | some b => exact .inr ⟨b, List.mem_of_find?_eq_some hb, rfl⟩

/-- What is chosen is a part of the body. -/
theorem chosen_part (role : α → Role) (holds : α → Bool) (opener : α) (body : List (Piece α)) :
    ∃ before after, body = before ++ chosen role holds opener body ++ after := by
  rcases chosen_eq role holds opener body with h | ⟨b, hb, h⟩
  · exact ⟨[], body, by simp [h]⟩
  · rw [h]
    simpa using content_of_mem_branchesFrom hb

theorem not_divides_of_mem_chosen {opener : α} {body : List (Piece α)} {p : Piece α}
    (h : p ∈ chosen role holds opener body) : ¬ divides role p := by
  rcases chosen_eq role holds opener body with he | ⟨b, hb, he⟩
  · simp [he] at h
  · rw [he] at h
    exact not_divides_of_mem_branchesFrom (by simp) hb p h

theorem length_chosen (role : α → Role) (holds : α → Bool) (opener : α) (body : List (Piece α)) :
    (flatten (chosen role holds opener body)).length ≤ (flatten body).length := by
  obtain ⟨before, after, he⟩ := chosen_part role holds opener body
  have := congrArg (fun ps => (flatten ps).length) he
  simp only [flatten_append, List.length_append] at this
  omega

theorem depth_chosen (role : α → Role) (holds : α → Bool) (opener : α) (body : List (Piece α)) :
    depth (chosen role holds opener body) ≤ depth body := by
  obtain ⟨before, after, he⟩ := chosen_part role holds opener body
  have := congrArg depth he
  simp only [depth_append] at this
  omega

/-! ## Evaluation from the outside -/

/-- The items that stay when each pair is replaced by its chosen branch. -/
def keep (role : α → Role) (holds : α → Bool) : List (Piece α) → List α
  | [] => []
  | .item a :: ps => a :: keep role holds ps
  | .pair opener body _ :: ps =>
    keep role holds (chosen role holds opener body) ++ keep role holds ps
  termination_by ps => (flatten ps).length
  decreasing_by
    · simp
    · have := length_chosen role holds opener body
      simp only [flatten_pair, List.length_cons, List.length_append]
      omega
    · simp only [flatten_pair, List.length_cons, List.length_append]
      omega

@[simp] theorem keep_nil : keep role holds [] = [] := by
  rw [keep]

@[simp] theorem keep_item (a : α) (ps : List (Piece α)) :
    keep role holds (.item a :: ps) = a :: keep role holds ps := by
  rw [keep]

@[simp] theorem keep_pair (opener : α) (body : List (Piece α)) (closer : α) (ps : List (Piece α)) :
    keep role holds (.pair opener body closer :: ps) =
      keep role holds (chosen role holds opener body) ++ keep role holds ps := by
  rw [keep]

@[simp] theorem keep_append (ps qs : List (Piece α)) :
    keep role holds (ps ++ qs) = keep role holds ps ++ keep role holds qs := by
  induction ps with
  | nil => simp
  | cons p ps ih => cases p <;> simp [ih]

theorem keep_of_depth (role : α → Role) (holds : α → Bool) {ps : List (Piece α)}
    (h : depth ps = 0) : keep role holds ps = flatten ps := by
  induction ps using Piece.induction with
  | nil => simp
  | item a ps ih =>
    rw [depth_item] at h
    rw [keep_item, flatten_item, ih h]
  | pair opener body closer ps _ _ =>
    rw [depth_pair] at h
    omega

@[simp] theorem keep_map_item (as : List α) : keep role holds (as.map Piece.item) = as := by
  rw [keep_of_depth role holds (depth_map_item as), flatten_map_item]

/-- What is kept stays in its order. -/
theorem keep_sublist (ps : List (Piece α)) : (keep role holds ps).Sublist (flatten ps) := by
  fun_induction keep role holds ps with
  | case1 => simp
  | case2 a ps ih =>
    rw [flatten_item]
    exact ih.cons_cons a
  | case3 opener body closer ps ihc ih =>
    obtain ⟨before, after, he⟩ := chosen_part role holds opener body
    have hbody : (keep role holds (chosen role holds opener body)).Sublist (flatten body) := by
      refine ihc.trans ?_
      conv_rhs => rw [he, flatten_append, flatten_append]
      exact (List.sublist_append_right _ _).trans (List.sublist_append_left _ _)
    rw [flatten_pair]
    exact (hbody.append (ih.cons closer)).cons opener

theorem mem_of_mem_keep {a : α} {ps : List (Piece α)} (h : a ∈ keep role holds ps) :
    a ∈ flatten ps :=
  (keep_sublist ps).subset h

/-! ## What evaluation meets -/

/-- What evaluation from the outside meets: an item that stays, or the heads of a pair's branches,
among which it has to choose. -/
inductive Visit (α : Type) where
  | met (a : α)
  | asked (heads : List α)

/-- The visits of the evaluation, in order. -/
def trace (role : α → Role) (holds : α → Bool) : List (Piece α) → List (Visit α)
  | [] => []
  | .item a :: ps => .met a :: trace role holds ps
  | .pair opener body _ :: ps =>
    .asked ((branches role opener body).map (·.head)) ::
      (trace role holds (chosen role holds opener body) ++ trace role holds ps)
  termination_by ps => (flatten ps).length
  decreasing_by
    · simp
    · have := length_chosen role holds opener body
      simp only [flatten_pair, List.length_cons, List.length_append]
      omega
    · simp only [flatten_pair, List.length_cons, List.length_append]
      omega

@[simp] theorem trace_nil : trace role holds [] = [] := by
  rw [trace]

@[simp] theorem trace_item (a : α) (ps : List (Piece α)) :
    trace role holds (.item a :: ps) = .met a :: trace role holds ps := by
  rw [trace]

@[simp] theorem trace_pair (opener : α) (body : List (Piece α)) (closer : α) (ps : List (Piece α)) :
    trace role holds (.pair opener body closer :: ps) =
      .asked ((branches role opener body).map (·.head)) ::
        (trace role holds (chosen role holds opener body) ++ trace role holds ps) := by
  rw [trace]

/-- The item that is met, if it is one. -/
def Visit.item? : Visit α → Option α
  | met a => some a
  | asked _ => none

/-- What evaluation keeps is what it meets. -/
theorem filterMap_trace (ps : List (Piece α)) :
    (trace role holds ps).filterMap Visit.item? = keep role holds ps := by
  fun_induction keep role holds ps with
  | case1 => simp
  | case2 a ps ih =>
    rw [trace_item, ← ih]
    rfl
  | case3 opener body closer ps ihc ih =>
    rw [trace_pair, ← ihc, ← ih, ← List.filterMap_append]
    rfl

end MailMerge.Nesting
