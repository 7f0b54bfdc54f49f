import MailMerge.Proofs.Merge.Results
import MailMerge.Section.Expansion

/-!
# Blocks that are expanded by themselves

Where no section goes from some blocks over to those after them, the blocks are expanded by
themselves: what comes after them is not looked at.

**`expandBlocks_append`**: blocks are expanded one part after the other, unless a section reaches from
one part into the next.
-/

namespace MailMerge

/-! ## Steps one after the other -/

namespace Merging

variable {α β : Type}

theorem shift_zero (image : PendingImage) : image.shift 0 = image := by
  have hpath : Node.shift 0 = id := by
    funext path
    cases path <;> rfl
  rw [PendingImage.shift, hpath, Option.map_id, id]

theorem shift_shift (image : PendingImage) (m n : Nat) :
    (image.shift m).shift n = image.shift (m + n) := by
  have hpath : Node.shift n ∘ Node.shift m = Node.shift (m + n) := by
    funext path
    cases path with
    | nil => rfl
    | cons i path => exact congrArg (· :: path) (Nat.add_assoc i m n)
  simp only [PendingImage.shift, Option.map_map, hpath]

theorem shifted_zero (x : Merging PendingImage α) : x.shifted 0 = x := by
  cases x with
  | error e => rfl
  | ok r =>
    obtain ⟨a, log⟩ := r
    show Except.ok (a, Log.mk log.warnings (log.images.map (PendingImage.shift 0))) = _
    rw [funext shift_zero, List.map_id']

theorem shifted_shifted (x : Merging PendingImage α) (m n : Nat) :
    (x.shifted m).shifted n = x.shifted (m + n) := by
  cases x with
  | error e => rfl
  | ok r =>
    obtain ⟨a, log⟩ := r
    show Except.ok (a, Log.mk log.warnings ((log.images.map _).map _)) = _
    rw [List.map_map, show PendingImage.shift n ∘ PendingImage.shift m = PendingImage.shift (m + n)
      from funext fun image => shift_shift image m n]
    rfl

theorem shifted_bind (x : Merging PendingImage α) (f : α → Merging PendingImage β) (n : Nat) :
    (x >>= f).shifted n = x.shifted n >>= fun a => (f a).shifted n := by
  cases x with
  | error e => rfl
  | ok r =>
    obtain ⟨a, log⟩ := r
    show (andThen (Except.ok (a, log)) f).shifted n =
      andThen (Except.ok (a, ⟨log.warnings, log.images.map _⟩)) _
    unfold andThen
    dsimp only
    cases f a with
    | error e => rfl
    | ok r =>
      show Except.ok (r.1, Log.mk _ ((log.images ++ r.2.images).map _)) = _
      rw [List.map_append]
      rfl

theorem followedBy_nil (x : Merging PendingImage (List Node)) :
    (pure [] : Merging PendingImage (List Node)).followedBy x = x := by
  unfold followedBy
  rw [pure_bind]
  show (x.shifted 0 >>= fun second => pure second) = x
  rw [shifted_zero, bind_pure]

theorem followedBy_assoc (x y z : Merging PendingImage (List Node)) :
    (x.followedBy y).followedBy z = x.followedBy (y.followedBy z) := by
  unfold followedBy
  rw [bind_assoc]
  refine bind_congr fun first => ?_
  rw [bind_assoc, shifted_bind, bind_assoc]
  refine bind_congr fun second => ?_
  rw [pure_bind, shifted_bind, shifted_shifted, bind_assoc, List.length_append, Nat.add_comm]
  refine bind_congr fun third => ?_
  show _ = (pure (second ++ third) >>= _)
  rw [pure_bind, List.append_assoc]

/-- A step before two others may as well belong to the first one. -/
theorem bind_followedBy (x : Merging PendingImage α) (f : α → Merging PendingImage (List Node))
    (y : Merging PendingImage (List Node)) :
    (x >>= fun a => (f a).followedBy y) = (x >>= f).followedBy y := by
  unfold followedBy
  rw [bind_assoc]

end Merging

namespace Section

/-! ## Sections among blocks -/

/-- A closing marker is found among more texts as soon as it is found among some of them. -/
theorem findCloserIn_append (opener : Marker) (depth : Int) (xs ys : List (List Marker)) :
    findCloserIn opener depth xs =
      (findCloserIn opener depth (xs ++ ys)).filter fun r => decide (r.1 < xs.length) := by
  induction xs generalizing depth with
  | nil =>
    rw [findCloserIn]
    cases findCloserIn opener depth ([] ++ ys) <;> rfl
  | cons ms xs ih =>
    rw [List.cons_append, findCloserIn, findCloserIn]
    cases findCloser opener depth ms with
    | mk closer depth' =>
      cases closer with
      | some closer => simp [Option.filter]
      | none =>
        dsimp only
        rw [ih depth']
        cases findCloserIn opener depth' (xs ++ ys) with
        | none => rfl
        | some r =>
          by_cases hr : r.1 < xs.length
          · simp [Option.filter, hr]
          · simp [Option.filter, hr]

/-- How many of the blocks after the first one belong to a section that begins in it. -/
def extent : List Node → Nat
  | .paragraph p false :: ns =>
    match firstOpener? p.text with
    | none => 0
    | some opener => ((blockSection? opener (.paragraph p :: ns)).map (·.1)).getD 0
  | _ => 0

/-- No section that begins in the blocks goes on in those after them. -/
def Within (after : List Node) : List Node → Prop
  | [] => True
  | n :: ns =>
    extent (n :: ns ++ after) ≤ ns.length ∧ Within after (ns.drop (extent (n :: ns ++ after)))
  termination_by ns => ns.length
  decreasing_by
    simp only [List.length_drop, List.length_cons]
    omega

theorem blockSection?_append (opener : Marker) (n : Node) (ns after : List Node) :
    blockSection? opener (n :: ns) =
      (blockSection? opener (n :: ns ++ after)).filter fun r => decide (r.1 ≤ ns.length) := by
  have h := findCloserIn_append opener 1
    (((markersOf (n.paragraph?.elim [] (·.text))).filter fun m => opener.start < m.start) ::
      ns.map fun n => markersOf (n.paragraph?.elim [] (·.text)))
    (after.map fun n => markersOf (n.paragraph?.elim [] (·.text)))
  simp only [List.length_cons, List.length_map, Nat.lt_succ_iff] at h
  simp only [blockSection?, List.map_cons, List.cons_append, closingText?, List.map_append,
    List.map_map]
  exact h

/-- A section that ends among the blocks is found there. -/
theorem blockSection?_eq_append {opener : Marker} {n : Node} {ns after : List Node}
    (h : ((blockSection? opener (n :: ns ++ after)).map (·.1)).getD 0 ≤ ns.length) :
    blockSection? opener (n :: ns ++ after) = blockSection? opener (n :: ns) := by
  rw [blockSection?_append opener n ns after]
  cases hr : blockSection? opener (n :: ns ++ after) with
  | none => rfl
  | some r =>
    rw [hr] at h
    have hle : r.1 ≤ ns.length := h
    simp [Option.filter, hle]

section Expansion

variable {settings : Settings} {c : Context} {nested : Bool}

/-- The blocks are expanded by themselves, and those after them next. -/
def Splits (settings : Settings) (c : Context) (nested : Bool) (before after : List Node) : Prop :=
  expandBlocks settings c nested (before ++ after) =
    (expandBlocks settings c nested before).followedBy (expandBlocks settings c nested after)

theorem Splits.followedBy {before after : List Node} (h : Splits settings c nested before after)
    (x : Merging PendingImage (List Node)) :
    x.followedBy (expandBlocks settings c nested (before ++ after)) =
      (x.followedBy (expandBlocks settings c nested before)).followedBy
        (expandBlocks settings c nested after) := by
  rw [h, Merging.followedBy_assoc]

/-- A section that a paragraph begins is expanded with the blocks that belong to it. -/
theorem splits_paragraph {p : Paragraph} {ns after : List Node}
    (hle : extent (.paragraph p :: ns ++ after) ≤ ns.length)
    (ih : Splits settings c nested (ns.drop (extent (.paragraph p :: ns ++ after))) after) :
    Splits settings c nested (.paragraph p :: ns) after := by
  rw [Splits, List.cons_append, expandBlocks, expandBlocks]
  cases ho : firstOpener? p.text with
  | none =>
    rw [List.cons_append, extent, ho] at ih
    exact ih.followedBy _
  | some opener =>
    have hextent : extent (.paragraph p :: ns ++ after) =
        ((blockSection? opener (.paragraph p :: ns ++ after)).map (·.1)).getD 0 := by
      rw [List.cons_append, extent, ho]
    rw [hextent] at hle ih
    have hsame := blockSection?_eq_append hle
    dsimp only
    rw [← List.cons_append, hsame]
    rw [hsame] at hle ih
    cases hc : blockSection? opener (.paragraph p :: ns) with
    | none =>
      rw [hc] at ih
      dsimp only
      rw [← Merging.bind_followedBy]
      exact bind_congr fun _ => ih.followedBy _
    | some r =>
      obtain ⟨count, closer⟩ := r
      rw [hc] at hle ih
      cases count with
      | zero => exact ih.followedBy _
      | succ count =>
        have hlt : count < ns.length := hle
        dsimp only
        rw [List.take_append_of_le_length (Nat.le_of_lt hlt), List.getElem?_append_left hlt,
          List.drop_append_of_le_length hlt]
        exact ih.followedBy _

/-- **Blocks are expanded by themselves** if no section reaches from them into those after them. -/
theorem expandBlocks_append {before after : List Node} (h : Within after before) :
    expandBlocks settings c nested (before ++ after) =
      (expandBlocks settings c nested before).followedBy (expandBlocks settings c nested after) := by
  fun_induction Within after before with
  | case1 =>
    rw [expandBlocks, Merging.followedBy_nil]
    rfl
  | case2 n ns ih =>
    obtain ⟨hle, hw⟩ := h
    have hsplits : Splits settings c nested (ns.drop (extent (n :: ns ++ after))) after := ih hw
    have hrest : extent (n :: ns ++ after) = 0 → Splits settings c nested ns after := by
      intro h
      rwa [h] at hsplits
    cases n with
    | paragraph p rendered =>
      cases rendered with
      | false => exact splits_paragraph hle hsplits
      | true =>
        rw [List.cons_append, expandBlocks, expandBlocks, (hrest rfl).followedBy]
        all_goals simp
    | table attributes rows rendered =>
      cases rendered with
      | false =>
        rw [List.cons_append, expandBlocks, expandBlocks]
        exact (hrest rfl).followedBy _
      | true =>
        rw [List.cons_append, expandBlocks, expandBlocks, (hrest rfl).followedBy]
        all_goals simp
    | _ =>
      rw [List.cons_append, expandBlocks, expandBlocks, (hrest rfl).followedBy]
      all_goals simp

end Expansion

end Section
end MailMerge
