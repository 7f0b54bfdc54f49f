import MailMerge.Proofs.Nesting.Basic

/-!
# Pairing up

Items are read from left to right with a stack of open conditionals: a closer ends the one that was
opened last. At the end, the openers that are still open become items by themselves, and so has each
closer that found nothing to close.

**`flatten_pairUp`** and **`settled_pairUp`**: the pieces are made of all items in order, the body
of each pair is balanced, and no closer by itself stands after an opener by itself.

**`pairUp_flatten`**: no other pieces are like that.
-/

namespace MailMerge.Nesting

variable {α : Type}

/-- A conditional that is still open: the pieces before it and its opener. -/
structure Frame (α : Type) where
  before : List (Piece α)
  opener : α

/-- The pieces when what is open is never closed. -/
def abandon : (frames : List (Frame α)) → (current : List (Piece α)) → List (Piece α)
  | [], current => current
  | f :: frames, current => abandon frames (f.before ++ .item f.opener :: current)

/-- The pieces that the items complete, where the frames are open, the inner ones first. -/
def pairFrom (role : α → Role) : (frames : List (Frame α)) → (current : List (Piece α)) →
    (items : List α) → List (Piece α)
  | frames, current, [] => abandon frames current
  | frames, current, a :: as =>
    match role a, frames with
    | .opens, frames => pairFrom role (⟨current, a⟩ :: frames) [] as
    | .closes, f :: frames =>
      pairFrom role frames (f.before ++ [.pair f.opener current a]) as
    | _, frames => pairFrom role frames (current ++ [.item a]) as

/-- The pieces of items: each closer is paired with the nearest opener that is still open. -/
def pairUp (role : α → Role) (items : List α) : List (Piece α) :=
  pairFrom role [] [] items

section Steps

variable {role : α → Role} {frames : List (Frame α)} {current : List (Piece α)} {a : α}
  {as : List α}

theorem pairFrom_opens (h : role a = .opens) :
    pairFrom role frames current (a :: as) = pairFrom role (⟨current, a⟩ :: frames) [] as := by
  simp [pairFrom, h]

theorem pairFrom_closes {f : Frame α} (h : role a = .closes) :
    pairFrom role (f :: frames) current (a :: as) =
      pairFrom role frames (f.before ++ [.pair f.opener current a]) as := by
  simp [pairFrom, h]

theorem pairFrom_item (ho : role a ≠ .opens) (hc : role a = .closes → frames = []) :
    pairFrom role frames current (a :: as) = pairFrom role frames (current ++ [.item a]) as := by
  cases frames with
  | nil => cases hr : role a <;> simp_all [pairFrom]
  | cons f frames => cases hr : role a <;> simp_all [pairFrom]

end Steps

variable (role : α → Role)

/-! ## Balanced and settled pieces -/

/-- Every opener has its closer, and every closer its opener. -/
def Balanced : List (Piece α) → Prop
  | [] => True
  | .item a :: ps => role a ≠ .opens ∧ role a ≠ .closes ∧ Balanced ps
  | .pair opener body closer :: ps =>
    role opener = .opens ∧ role closer = .closes ∧ Balanced body ∧ Balanced ps

/-- The bodies of pairs are balanced, and no closer by itself stands after an opener by itself;
whether there has been one before. -/
def Settled (opened : Prop) : List (Piece α) → Prop
  | [] => True
  | .item a :: ps =>
    (role a = .closes → ¬ opened) ∧ Settled (opened ∨ role a = .opens) ps
  | .pair opener body closer :: ps =>
    role opener = .opens ∧ role closer = .closes ∧ Balanced role body ∧ Settled opened ps

variable {role}

@[simp] theorem balanced_nil : Balanced role [] := by
  rw [Balanced]; trivial

@[simp] theorem balanced_item (a : α) (ps : List (Piece α)) :
    Balanced role (.item a :: ps) ↔ role a ≠ .opens ∧ role a ≠ .closes ∧ Balanced role ps := by
  rw [Balanced]

@[simp] theorem balanced_pair (opener : α) (body : List (Piece α)) (closer : α) (ps : List (Piece α)) :
    Balanced role (.pair opener body closer :: ps) ↔
      role opener = .opens ∧ role closer = .closes ∧ Balanced role body ∧ Balanced role ps := by
  rw [Balanced]

@[simp] theorem settled_nil (opened : Prop) : Settled role opened [] := by
  rw [Settled]; trivial

@[simp] theorem settled_item (opened : Prop) (a : α) (ps : List (Piece α)) :
    Settled role opened (.item a :: ps) ↔
      (role a = .closes → ¬ opened) ∧ Settled role (opened ∨ role a = .opens) ps := by
  rw [Settled]

@[simp] theorem settled_pair (opened : Prop) (opener : α) (body : List (Piece α)) (closer : α)
    (ps : List (Piece α)) :
    Settled role opened (.pair opener body closer :: ps) ↔
      role opener = .opens ∧ role closer = .closes ∧ Balanced role body ∧ Settled role opened ps := by
  rw [Settled]

@[simp] theorem balanced_append (ps qs : List (Piece α)) :
    Balanced role (ps ++ qs) ↔ Balanced role ps ∧ Balanced role qs := by
  induction ps using Piece.induction with
  | nil => simp
  | item a ps ih => simp [ih, and_assoc]
  | pair opener body closer ps _ ih => simp [ih, and_assoc]

theorem Balanced.settled_append {ps qs : List (Piece α)} (h : Balanced role ps) (opened : Prop) :
    Settled role opened (ps ++ qs) ↔ Settled role opened qs := by
  induction ps using Piece.induction with
  | nil => simp
  | item a ps ih =>
    obtain ⟨ho, hc, h⟩ := (balanced_item a ps).1 h
    simp [ho, hc, ih h]
  | pair opener body closer ps _ ih =>
    obtain ⟨ho, hc, hb, h⟩ := (balanced_pair opener body closer ps).1 h
    simp [ho, hc, hb, ih h]

theorem Balanced.settled {ps : List (Piece α)} (h : Balanced role ps) (opened : Prop) :
    Settled role opened ps := by
  rw [← List.append_nil ps, h.settled_append]
  exact settled_nil opened

theorem Balanced.chosen {body : List (Piece α)} (h : Balanced role body) (holds : α → Bool)
    (opener : α) : Balanced role (chosen role holds opener body) := by
  obtain ⟨before, after, he⟩ := chosen_part role holds opener body
  rw [he] at h
  exact ((balanced_append _ _).1 ((balanced_append _ _).1 h).1).2

/-! ## The pieces of items -/

theorem abandon_append (frames : List (Frame α)) (current qs : List (Piece α)) :
    abandon frames current ++ qs = abandon frames (current ++ qs) := by
  induction frames generalizing current with
  | nil => rfl
  | cons f frames ih => simp [abandon, ih]

theorem flatten_pairFrom (frames : List (Frame α)) (current : List (Piece α)) (as : List α) :
    flatten (pairFrom role frames current as) = flatten (abandon frames current) ++ as := by
  induction as generalizing frames current with
  | nil => simp [pairFrom]
  | cons a as ih =>
    have hitem : flatten (abandon frames current) ++ a :: as =
        flatten (abandon frames (current ++ [.item a])) ++ as := by
      rw [← abandon_append, flatten_append]
      simp
    cases hr : role a with
    | opens =>
      rw [pairFrom_opens hr, ih, hitem]
      rfl
    | closes =>
      cases frames with
      | nil => rw [pairFrom_item (by simp [hr]) (by simp), ih, hitem]
      | cons f frames =>
        rw [pairFrom_closes hr, ih, ← abandon_append, abandon, ← abandon_append]
        simp
    | _ => rw [pairFrom_item (by simp [hr]) (by simp [hr]), ih, hitem]

/-- The pieces are made of all items, in order. -/
theorem flatten_pairUp (role : α → Role) (as : List α) : flatten (pairUp role as) = as := by
  rw [pairUp, flatten_pairFrom]
  simp [abandon]

/-! ## The pieces are settled -/

/-- What holds of the open conditionals and the pieces after them: those inside a conditional are
balanced, those before all of them hold no opener by itself. -/
def Framed (role : α → Role) : List (Frame α) → List (Piece α) → Prop
  | [], current => ∀ qs, Settled role False qs → Settled role False (current ++ qs)
  | f :: frames, current => role f.opener = .opens ∧ Balanced role current ∧ Framed role frames f.before

theorem Framed.append {frames : List (Frame α)} {current qs : List (Piece α)}
    (h : Framed role frames current) (hq : Balanced role qs) : Framed role frames (current ++ qs) := by
  cases frames with
  | nil =>
    intro rs hr
    rw [List.append_assoc]
    exact h _ ((hq.settled_append False).2 hr)
  | cons f frames => exact ⟨h.1, (balanced_append _ _).2 ⟨h.2.1, hq⟩, h.2.2⟩

theorem Framed.append_item {frames : List (Frame α)} {current : List (Piece α)} {a : α}
    (h : Framed role frames current) (ho : role a ≠ .opens) (hc : role a = .closes → frames = []) :
    Framed role frames (current ++ [.item a]) := by
  cases frames with
  | nil =>
    intro rs hr
    rw [List.append_assoc]
    refine h _ ?_
    simpa [ho] using hr
  | cons f frames => exact h.append (by simpa [ho] using fun hr => by simpa using hc hr)

theorem Framed.settled_abandon {frames : List (Frame α)} {current qs : List (Piece α)}
    (h : Framed role frames current) (hq : Settled role (frames ≠ []) qs) :
    Settled role False (abandon frames current ++ qs) := by
  induction frames generalizing current qs with
  | nil => exact h qs (by simpa using hq)
  | cons f frames ih =>
    obtain ⟨ho, hc, hf⟩ := h
    rw [abandon, ← abandon_append, List.append_assoc]
    refine ih hf ?_
    rw [List.cons_append, settled_item]
    refine ⟨by simp [ho], ?_⟩
    rw [hc.settled_append]
    simpa [ho] using hq

theorem Framed.settled_pairFrom {frames : List (Frame α)} {current : List (Piece α)}
    (h : Framed role frames current) (as : List α) :
    Settled role False (pairFrom role frames current as) := by
  induction as generalizing frames current with
  | nil =>
    rw [pairFrom]
    simpa using h.settled_abandon (settled_nil _)
  | cons a as ih =>
    cases hr : role a with
    | opens =>
      rw [pairFrom_opens hr]
      exact ih ⟨hr, balanced_nil, h⟩
    | closes =>
      cases frames with
      | nil =>
        rw [pairFrom_item (by simp [hr]) (by simp)]
        exact ih (h.append_item (by simp [hr]) (by simp))
      | cons f frames =>
        rw [pairFrom_closes hr]
        exact ih (h.2.2.append (by simpa [hr] using ⟨h.1, h.2.1⟩))
    | _ =>
      rw [pairFrom_item (by simp [hr]) (by simp [hr])]
      exact ih (h.append_item (by simp [hr]) (by simp [hr]))

/-- **The pieces of items are settled.** -/
theorem settled_pairUp (role : α → Role) (as : List α) : Settled role False (pairUp role as) :=
  have h : Framed role [] [] := fun _ h => h
  h.settled_pairFrom as

/-! ## There are no others -/

theorem pairFrom_flatten_balanced {ps : List (Piece α)} (h : Balanced role ps)
    (frames : List (Frame α)) (current : List (Piece α)) (as : List α) :
    pairFrom role frames current (flatten ps ++ as) = pairFrom role frames (current ++ ps) as := by
  induction ps using Piece.induction generalizing frames current as with
  | nil => simp
  | item a ps ih =>
    obtain ⟨ho, hc, h⟩ := (balanced_item a ps).1 h
    rw [flatten_item, List.cons_append, pairFrom_item ho (fun hr => absurd hr hc), ih h]
    simp
  | pair opener body closer ps ihb ih =>
    obtain ⟨ho, hc, hb, h⟩ := (balanced_pair opener body closer ps).1 h
    rw [flatten_pair, List.cons_append, List.append_assoc, pairFrom_opens ho, ihb hb,
      List.cons_append, pairFrom_closes hc, ih h]
    simp

theorem pairFrom_flatten {frames : List (Frame α)} {ps : List (Piece α)}
    (h : Settled role (frames ≠ []) ps) (current : List (Piece α)) :
    pairFrom role frames current (flatten ps) = abandon frames (current ++ ps) := by
  induction ps using Piece.induction generalizing frames current with
  | nil => simp [pairFrom]
  | item a ps ih =>
    obtain ⟨hc, h⟩ := (settled_item _ a ps).1 h
    by_cases ho : role a = .opens
    · rw [flatten_item, pairFrom_opens ho, ih (by simpa [ho] using h)]
      simp [abandon]
    · rw [flatten_item, pairFrom_item ho (fun hr => not_not.1 (hc hr)), ih (by simpa [ho] using h)]
      simp
  | pair opener body closer ps _ ih =>
    obtain ⟨ho, hc, hb, h⟩ := (settled_pair _ opener body closer ps).1 h
    rw [flatten_pair, pairFrom_opens ho, pairFrom_flatten_balanced hb, pairFrom_closes hc, ih h]
    simp

/-- **Settled pieces are those of their items.** -/
theorem pairUp_flatten {ps : List (Piece α)} (h : Settled role False ps) :
    pairUp role (flatten ps) = ps := by
  rw [pairUp, pairFrom_flatten (by simpa using h)]
  rfl

theorem Settled.append_plain {opened : Prop} {ps : List (Piece α)} {as : List α}
    (h : Settled role opened ps) (ha : ∀ a ∈ as, role a = .plain) :
    Settled role opened (ps ++ as.map .item) := by
  induction ps using Piece.induction generalizing opened with
  | nil =>
    clear h
    induction as generalizing opened with
    | nil => simp
    | cons a as ih =>
      have := ha a List.mem_cons_self
      simpa [this] using ih fun b hb => ha b (List.mem_cons_of_mem a hb)
  | item a ps ih =>
    obtain ⟨hc, h⟩ := (settled_item opened a ps).1 h
    rw [List.cons_append, settled_item]
    exact ⟨hc, ih h⟩
  | pair opener body closer ps _ ih =>
    obtain ⟨ho, hc, hb, h⟩ := (settled_pair opened opener body closer ps).1 h
    rw [List.cons_append, settled_pair]
    exact ⟨ho, hc, hb, ih h⟩

/-- Plain items at the end stay by themselves. -/
theorem pairUp_append_plain (as : List α) {bs : List α} (hb : ∀ b ∈ bs, role b = .plain) :
    pairUp role (as ++ bs) = pairUp role as ++ bs.map .item := by
  have h := pairUp_flatten ((settled_pairUp role as).append_plain hb)
  rwa [flatten_append, flatten_pairUp, flatten_map_item] at h

/-- A plain item at the start stays by itself. -/
theorem pairUp_cons_plain {a : α} (ha : role a = .plain) (as : List α) :
    pairUp role (a :: as) = .item a :: pairUp role as := by
  have hs : Settled role False (.item a :: pairUp role as) := by
    simpa [ha] using settled_pairUp role as
  have h := pairUp_flatten hs
  rwa [flatten_item, flatten_pairUp] at h

end MailMerge.Nesting
