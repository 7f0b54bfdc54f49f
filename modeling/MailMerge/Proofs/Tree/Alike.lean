import MailMerge.Proofs.Merge.Results
import MailMerge.Section.Open
import MailMerge.Tree.Snapshot

/-!
# Trees that are alike

Two trees are alike if they have the same shape and the same properties, and their paragraphs are
related: the open ones in one way, those that a section has produced in another. Stages that rewrite
the open paragraphs keep trees alike.

**`agree_rewriteOpen`**: open paragraphs are rewritten to related ones, and nothing else changes.
-/

namespace MailMerge.Node

open Merging (Agree)

variable {O O' C C' : Paragraph → Paragraph → Prop}

/-- The paragraphs are related as closed or as open ones. -/
def Status (O C : Paragraph → Paragraph → Prop) (closed : Bool) (p q : Paragraph) : Prop :=
  if closed then C p q else O p q

mutual

/-- The nodes at a level have the same shape and properties; their open paragraphs are related by
the first relation, those that are closed by the second. Nodes that are out of place at the level are
the same. -/
def Alike (O C : Paragraph → Paragraph → Prop) : (closed : Bool) → Level → Node → Node → Prop
  | closed, .blocks, paragraph p rendered, m =>
    ∃ q, m = paragraph q rendered ∧ Status O C (closed || rendered) p q
  | closed, .blocks, table attributes rows rendered, m =>
    ∃ rows', m = table attributes rows' rendered ∧ AllAlike O C (closed || rendered) .rows rows rows'
  | closed, .rows, row attributes cells rendered, m =>
    ∃ cells', m = row attributes cells' rendered ∧ AllAlike O C (closed || rendered) .cells cells cells'
  | closed, .cells, cell attributes children rendered, m =>
    ∃ children', m = cell attributes children' rendered ∧ AllAlike O C closed .blocks children children'
  | _, _, n, m => m = n

/-- The nodes of two lists at a level are alike, one by one. -/
def AllAlike (O C : Paragraph → Paragraph → Prop) (closed : Bool) (level : Level) :
    List Node → List Node → Prop
  | [], ms => ms = []
  | n :: ns, ms => ∃ m ms', ms = m :: ms' ∧ Alike O C closed level n m ∧ AllAlike O C closed level ns ms'

end

theorem allAlike_iff {closed : Bool} {level : Level} {ns ms : List Node} :
    AllAlike O C closed level ns ms ↔ List.Forall₂ (Alike O C closed level) ns ms := by
  induction ns generalizing ms with
  | nil => simp [AllAlike]
  | cons n ns ih =>
    rw [List.forall₂_cons_left_iff]
    constructor
    · rintro ⟨m, ms', rfl, hn, hns⟩
      exact ⟨m, ms', hn, ih.1 hns, rfl⟩
    · rintro ⟨m, ms', hn, hns, rfl⟩
      exact ⟨m, ms', rfl, hn, ih.2 hns⟩

/-! ## Single nodes -/

section Nodes

variable {closed rendered : Bool} {p q : Paragraph} {attributes : Text} {ns ms : List Node}

theorem alike_paragraph :
    Alike O C closed .blocks (paragraph p rendered) (paragraph q rendered) ↔
      Status O C (closed || rendered) p q := by
  simp [Alike]

theorem alike_table :
    Alike O C closed .blocks (table attributes ns rendered) (table attributes ms rendered) ↔
      List.Forall₂ (Alike O C (closed || rendered) .rows) ns ms := by
  simp [Alike, allAlike_iff]

theorem alike_row :
    Alike O C closed .rows (row attributes ns rendered) (row attributes ms rendered) ↔
      List.Forall₂ (Alike O C (closed || rendered) .cells) ns ms := by
  simp [Alike, allAlike_iff]

theorem alike_cell :
    Alike O C closed .cells (cell attributes ns rendered) (cell attributes ms rendered) ↔
      List.Forall₂ (Alike O C closed .blocks) ns ms := by
  simp [Alike, allAlike_iff]

end Nodes

/-! ## Changing the relations -/

theorem status_or {closed closed' : Bool} (hC : ∀ p q, C p q → C' p q)
    (h : ∀ p q, Status O C closed p q → Status O' C' closed' p q) (rendered : Bool) (p q : Paragraph)
    (hpq : Status O C (closed || rendered) p q) : Status O' C' (closed' || rendered) p q := by
  cases rendered with
  | true =>
    rw [Bool.or_true] at hpq ⊢
    exact hC p q hpq
  | false =>
    rw [Bool.or_false] at hpq ⊢
    exact h p q hpq

mutual

/-- Trees stay alike when the relations are weakened. What was open may count as closed from now on,
and the other way round, where the relations allow it. -/
theorem Alike.imp (hC : ∀ p q, C p q → C' p q) :
    ∀ (level : Level) (n m : Node) {closed closed' : Bool},
      (∀ p q, Status O C closed p q → Status O' C' closed' p q) →
      Alike O C closed level n m → Alike O' C' closed' level n m
  | .blocks, .paragraph p rendered, _, _, _, h, ⟨q, hm, hpq⟩ => ⟨q, hm, status_or hC h rendered p q hpq⟩
  | .blocks, .table _ rows rendered, _, _, _, h, ⟨rows', hm, hrows⟩ =>
    ⟨rows', hm, AllAlike.imp hC .rows rows rows' (status_or hC h rendered) hrows⟩
  | .rows, .row _ cells rendered, _, _, _, h, ⟨cells', hm, hcells⟩ =>
    ⟨cells', hm, AllAlike.imp hC .cells cells cells' (status_or hC h rendered) hcells⟩
  | .cells, .cell _ children _, _, _, _, h, ⟨children', hm, hch⟩ =>
    ⟨children', hm, AllAlike.imp hC .blocks children children' h hch⟩
  | .blocks, .row .., _, _, _, _, hm | .blocks, .cell .., _, _, _, _, hm
  | .blocks, .pageBreak _, _, _, _, _, hm | .blocks, .verbatim _, _, _, _, _, hm
  | .rows, .paragraph .., _, _, _, _, hm | .rows, .table .., _, _, _, _, hm
  | .rows, .cell .., _, _, _, _, hm | .rows, .pageBreak _, _, _, _, _, hm
  | .rows, .verbatim _, _, _, _, _, hm | .cells, .paragraph .., _, _, _, _, hm
  | .cells, .table .., _, _, _, _, hm | .cells, .row .., _, _, _, _, hm
  | .cells, .pageBreak _, _, _, _, _, hm | .cells, .verbatim _, _, _, _, _, hm => hm

theorem AllAlike.imp (hC : ∀ p q, C p q → C' p q) :
    ∀ (level : Level) (ns ms : List Node) {closed closed' : Bool},
      (∀ p q, Status O C closed p q → Status O' C' closed' p q) →
      AllAlike O C closed level ns ms → AllAlike O' C' closed' level ns ms
  | _, [], _, _, _, _, hms => hms
  | level, n :: ns, _, _, _, h, ⟨m, ms', hms, hn, hns⟩ =>
    ⟨m, ms', hms, Alike.imp hC level n m h hn, AllAlike.imp hC level ns ms' h hns⟩

end

variable {b : Bool} {level : Level} {n m : Node}

/-- Where both relations are the same it makes no difference what is open. -/
theorem Alike.close (h : Alike C C b level n m) : Alike O C true level n m := by
  refine Alike.imp (fun _ _ hc => hc) level n m (fun p q hpq => ?_) h
  cases b <;> exact hpq

theorem AllAlike.of_closed {ns ms : List Node} (h : AllAlike O C true level ns ms) :
    AllAlike O' C true level ns ms :=
  AllAlike.imp (fun _ _ hc => hc) level ns ms
    (fun p q (hpq : Status O C true p q) => (hpq : Status O' C true p q)) h

/-- A node in which everything is closed may be marked as rendered. -/
theorem Alike.markRendered (h : Alike O C true level n m) (hl : level ≠ .cells) :
    Alike O C b level n.markRendered m.markRendered := by
  have hor : (b || true) = (true || true) := by cases b <;> rfl
  cases level with
  | cells => exact absurd rfl hl
  | blocks =>
    cases n with
    | paragraph p rendered =>
      obtain ⟨q, rfl, hpq⟩ := h
      exact ⟨q, rfl, by rw [hor]; exact hpq⟩
    | table attributes rows rendered =>
      obtain ⟨rows', rfl, hrows⟩ := h
      exact ⟨rows', rfl, by rw [hor]; exact hrows⟩
    | _ =>
      obtain rfl : m = _ := h
      rfl
  | rows =>
    cases n with
    | row attributes cells rendered =>
      obtain ⟨cells', rfl, hcells⟩ := h
      exact ⟨cells', rfl, by rw [hor]; exact hcells⟩
    | _ =>
      obtain rfl : m = _ := h
      rfl

/-! ## Rewriting open paragraphs -/

section Rewriting

variable {f g : Paragraph → Merging PendingImage Paragraph}

mutual

/-- **Open paragraphs are rewritten to related ones**, and nothing else changes. -/
theorem agree_rewriteOpenIn (hfg : ∀ p q, O p q → Agree O' (f p) (g q)) :
    ∀ (level : Level) (n m : Node), Alike O C false level n m →
      Agree (Alike O' C false level) (rewriteOpenIn f level n) (rewriteOpenIn g level m)
  | .blocks, .paragraph p false, _, ⟨q, hm, hpq⟩ => by
    subst hm
    simp only [rewriteOpenIn]
    exact (hfg p q hpq).bind fun p' q' h => Merging.agree_pure ⟨q', rfl, h⟩
  | .blocks, .paragraph p true, _, ⟨q, hm, hpq⟩ => by
    subst hm
    simp only [rewriteOpenIn]
    exact Merging.agree_pure ⟨q, rfl, hpq⟩
  | .blocks, .table _ rows false, _, ⟨rows', hm, hrows⟩ => by
    subst hm
    simp only [rewriteOpenIn]
    refine (agree_rewriteOpen hfg .rows 0 0 rows rows' hrows).bind fun rs rs' h => ?_
    exact Merging.agree_pure (alike_table.2 h)
  | .blocks, .table a rows true, _, ⟨rows', hm, hrows⟩ => by
    subst hm
    simp only [rewriteOpenIn]
    exact Merging.agree_pure ⟨rows', rfl, AllAlike.of_closed hrows⟩
  | .rows, .row _ cells false, _, ⟨cells', hm, hcells⟩ => by
    subst hm
    simp only [rewriteOpenIn]
    refine (agree_rewriteOpen hfg .cells 0 0 cells cells' hcells).bind fun cs cs' h => ?_
    exact Merging.agree_pure (alike_row.2 h)
  | .rows, .row _ cells true, _, ⟨cells', hm, hcells⟩ => by
    subst hm
    simp only [rewriteOpenIn]
    exact Merging.agree_pure ⟨cells', rfl, AllAlike.of_closed hcells⟩
  | .cells, .cell _ children _, _, ⟨children', hm, hch⟩ => by
    subst hm
    simp only [rewriteOpenIn]
    refine (agree_rewriteOpen hfg .blocks 0 0 children children' hch).bind fun cs cs' h => ?_
    exact Merging.agree_pure (alike_cell.2 h)
  | .blocks, .row .., _, hm | .blocks, .cell .., _, hm | .blocks, .pageBreak _, _, hm
  | .blocks, .verbatim _, _, hm | .rows, .paragraph .., _, hm | .rows, .table .., _, hm
  | .rows, .cell .., _, hm | .rows, .pageBreak _, _, hm | .rows, .verbatim _, _, hm
  | .cells, .paragraph .., _, hm | .cells, .table .., _, hm | .cells, .row .., _, hm
  | .cells, .pageBreak _, _, hm | .cells, .verbatim _, _, hm => by
    obtain rfl : _ = _ := hm
    simp only [rewriteOpenIn]
    exact Merging.agree_pure rfl

theorem agree_rewriteOpen (hfg : ∀ p q, O p q → Agree O' (f p) (g q)) :
    ∀ (level : Level) (i j : Nat) (ns ms : List Node), AllAlike O C false level ns ms →
      Agree (List.Forall₂ (Alike O' C false level)) (rewriteOpen f level i ns)
        (rewriteOpen g level j ms)
  | level, i, j, [], _, hms => by
    obtain rfl : _ = _ := hms
    simp only [rewriteOpen]
    exact Merging.agree_pure .nil
  | level, i, j, n :: ns, _, ⟨m, ms', hms, hn, hns⟩ => by
    subst hms
    simp only [rewriteOpen]
    refine ((agree_rewriteOpenIn hfg level n m hn).under i j).bind fun n' m' h => ?_
    refine (agree_rewriteOpen hfg level (i + 1) (j + 1) ns ms' hns).bind fun ns' ms'' h' => ?_
    exact Merging.agree_pure (.cons h h')

end

end Rewriting

/-! ## The paragraphs of trees -/

mutual

/-- The paragraphs of trees that are alike are related one by one. -/
theorem Alike.paragraphsAt : ∀ (level : Level) (n m : Node) {closed : Bool} (i j : Path),
    Alike C C closed level n m →
    List.Forall₂ C ((paragraphsAt i level n).map (·.2)) ((paragraphsAt j level m).map (·.2))
  | .blocks, .paragraph p rendered, _, closed, _, _, ⟨q, hm, hpq⟩ => by
    subst hm
    refine .cons ?_ .nil
    unfold Status at hpq
    split at hpq <;> exact hpq
  | .blocks, .table _ rows _, _, _, i, j, ⟨rows', hm, hrows⟩ => by
    subst hm
    exact AllAlike.paragraphsFrom .rows rows rows' i j 0 0 hrows
  | .rows, .row _ cells _, _, _, i, j, ⟨cells', hm, hcells⟩ => by
    subst hm
    exact AllAlike.paragraphsFrom .cells cells cells' i j 0 0 hcells
  | .cells, .cell _ children _, _, _, i, j, ⟨children', hm, hch⟩ => by
    subst hm
    exact AllAlike.paragraphsFrom .blocks children children' i j 0 0 hch
  | .blocks, .row .., _, _, _, _, hm | .blocks, .cell .., _, _, _, _, hm
  | .blocks, .pageBreak _, _, _, _, _, hm | .blocks, .verbatim _, _, _, _, _, hm
  | .rows, .paragraph .., _, _, _, _, hm | .rows, .table .., _, _, _, _, hm
  | .rows, .cell .., _, _, _, _, hm | .rows, .pageBreak _, _, _, _, _, hm
  | .rows, .verbatim _, _, _, _, _, hm | .cells, .paragraph .., _, _, _, _, hm
  | .cells, .table .., _, _, _, _, hm | .cells, .row .., _, _, _, _, hm
  | .cells, .pageBreak _, _, _, _, _, hm | .cells, .verbatim _, _, _, _, _, hm => by
    obtain rfl : _ = _ := hm
    exact .nil

theorem AllAlike.paragraphsFrom : ∀ (level : Level) (ns ms : List Node) {closed : Bool} (i j : Path)
    (k l : Nat), AllAlike C C closed level ns ms →
    List.Forall₂ C ((paragraphsFrom i k level ns).map (·.2)) ((paragraphsFrom j l level ms).map (·.2))
  | level, [], _, _, _, _, _, _, hms => by
    obtain rfl : _ = _ := hms
    simp only [paragraphsFrom]
    exact .nil
  | level, n :: ns, _, _, i, j, k, l, ⟨m, ms', hms, hn, hns⟩ => by
    subst hms
    simp only [paragraphsFrom, List.map_append]
    exact List.rel_append (Alike.paragraphsAt level n m (i ++ [k]) (j ++ [l]) hn)
      (AllAlike.paragraphsFrom level ns ms' i j (k + 1) (l + 1) hns)

end

mutual

/-- A tree is alike to itself as closed if its paragraphs are related to themselves. -/
theorem alike_self : ∀ (level : Level) (n : Node) (i : Path),
    (∀ p ∈ (paragraphsAt i level n).map (·.2), C p p) → Alike O C true level n n
  | .blocks, .paragraph p _, _, h => ⟨p, rfl, h p List.mem_cons_self⟩
  | .blocks, .table _ rows _, i, h => ⟨rows, rfl, allAlike_self .rows rows i 0 h⟩
  | .rows, .row _ cells _, i, h => ⟨cells, rfl, allAlike_self .cells cells i 0 h⟩
  | .cells, .cell _ children _, i, h => ⟨children, rfl, allAlike_self .blocks children i 0 h⟩
  | .blocks, .row .., _, _ | .blocks, .cell .., _, _ | .blocks, .pageBreak _, _, _
  | .blocks, .verbatim _, _, _ | .rows, .paragraph .., _, _ | .rows, .table .., _, _
  | .rows, .cell .., _, _ | .rows, .pageBreak _, _, _ | .rows, .verbatim _, _, _
  | .cells, .paragraph .., _, _ | .cells, .table .., _, _ | .cells, .row .., _, _
  | .cells, .pageBreak _, _, _ | .cells, .verbatim _, _, _ => rfl

theorem allAlike_self : ∀ (level : Level) (ns : List Node) (i : Path) (k : Nat),
    (∀ p ∈ (paragraphsFrom i k level ns).map (·.2), C p p) → AllAlike O C true level ns ns
  | _, [], _, _, _ => rfl
  | level, n :: ns, i, k, h => by
    simp only [paragraphsFrom, List.map_append] at h
    exact ⟨n, ns, rfl,
      alike_self level n (i ++ [k]) fun p hp => h p (List.mem_append_left _ hp),
      allAlike_self level ns i (k + 1) fun p hp => h p (List.mem_append_right _ hp)⟩

end

end MailMerge.Node
