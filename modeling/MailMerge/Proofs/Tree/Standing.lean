import MailMerge.Merge.Basic
import MailMerge.Proofs.Merge.Results

/-!
# Paragraphs at their places

A paragraph stands at a place of a tree as an open one, or as a closed one: a section has produced it,
or a row or table around it. Stages that rewrite the open paragraphs leave each closed one at its place,
and in the end a closed paragraph is there as it was, unless it is a page break marker.

**`standing_rewriteOpen`**: open paragraphs are rewritten around the closed ones.

**`finalIn_breakPages`**: only a lone page break marker is replaced.
-/

namespace MailMerge.Node

open Merging (gives_bind_iff gives_pure_iff gives_under_iff)

/-! ## Places -/

/-- The paragraph at a place inside a node at a level, and whether it is closed: it is marked as
rendered itself, or a table or row around it is. -/
def standingIn? : (closed : Bool) → Level → Node → Path → Option (Paragraph × Bool)
  | closed, .blocks, paragraph p rendered, [] => some (p, closed || rendered)
  | closed, .blocks, table _ rows rendered, i :: path =>
    rows[i]?.bind fun n => standingIn? (closed || rendered) .rows n path
  | closed, .rows, row _ cells rendered, i :: path =>
    cells[i]?.bind fun n => standingIn? (closed || rendered) .cells n path
  | closed, .cells, cell _ children _, i :: path =>
    children[i]?.bind fun n => standingIn? closed .blocks n path
  | _, _, _, _ => none

/-- The paragraph at a place among blocks and in the tables among them, and whether it is closed. -/
def standing? (nodes : List Node) : Path → Option (Paragraph × Bool)
  | [] => none
  | i :: path => nodes[i]?.bind fun n => standingIn? false .blocks n path

theorem standingIn?_nil_iff {closed : Bool} {level : Level} {n : Node} {p : Paragraph} {b : Bool} :
    standingIn? closed level n [] = some (p, b) ↔
      level = .blocks ∧ ∃ rendered, n = paragraph p rendered ∧ b = (closed || rendered) := by
  constructor
  · intro h
    cases level <;> cases n <;> cases h
    exact ⟨rfl, _, rfl, rfl⟩
  · rintro ⟨rfl, rendered, rfl, rfl⟩
    rfl

/-- Farther inside, a paragraph stands in one of the nodes inside the node. The mark of a cell closes
nothing. -/
theorem standingIn?_cons (closed : Bool) (level : Level) (n : Node) (i : Nat) (path : Path) :
    standingIn? closed level n (i :: path) = (inside level n).bind fun x =>
      x.2[i]?.bind fun m => standingIn? (closed || (level != .cells && n.rendered)) x.1 m path := by
  have hblocks : (Level.blocks != .cells) = true := rfl
  have hrows : (Level.rows != .cells) = true := rfl
  cases level <;> cases n <;> simp [standingIn?, inside, rendered, hblocks, hrows]

theorem exists_of_standingIn?_cons {closed : Bool} {level : Level} {n : Node} {i : Nat} {path : Path}
    {x : Paragraph × Bool} (h : standingIn? closed level n (i :: path) = some x) :
    ∃ inner ns m, inside level n = some (inner, ns) ∧ ns[i]? = some m ∧
      standingIn? (closed || (level != .cells && n.rendered)) inner m path = some x := by
  rw [standingIn?_cons] at h
  obtain ⟨⟨inner, ns⟩, hin, h⟩ := Option.bind_eq_some_iff.1 h
  obtain ⟨m, hm, h⟩ := Option.bind_eq_some_iff.1 h
  exact ⟨inner, ns, m, hin, hm, h⟩

theorem children_of_inside {level inner : Level} {n : Node} {ns : List Node}
    (h : inside level n = some (inner, ns)) : n.children = ns := by
  cases level <;> cases n <;> cases h <;> rfl

/-- What each paragraph of a node at a level satisfies, as an open or as a closed one. -/
def Every (P : Bool → Paragraph → Prop) (closed : Bool) (level : Level) (n : Node) : Prop :=
  ∀ path p b, standingIn? closed level n path = some (p, b) → P b p

section Every

variable {P Q : Bool → Paragraph → Prop} {closed rendered : Bool} {level : Level} {p : Paragraph}
  {attributes : Text} {n : Node} {ns : List Node}

theorem every_paragraph : Every P closed .blocks (paragraph p rendered) ↔ P (closed || rendered) p := by
  constructor
  · intro h
    exact h [] p _ rfl
  · intro h path q b hq
    cases path with
    | nil =>
      obtain ⟨rfl, rfl⟩ := Prod.mk.inj (Option.some.inj hq)
      exact h
    | cons i path => cases hq

/-- Where a node is no paragraph, its paragraphs are those of the nodes inside. -/
theorem every_inside {inner : Level} (hn : n.isParagraph = false) (h : inside level n = some (inner, ns)) :
    Every P closed level n ↔
      ∀ m ∈ ns, Every P (closed || (level != .cells && n.rendered)) inner m := by
  constructor
  · intro hevery m hm path p b hp
    obtain ⟨i, hi⟩ := List.mem_iff_getElem?.1 hm
    apply hevery (i :: path) p b
    rw [standingIn?_cons, h, Option.bind_some]
    exact Option.bind_eq_some_iff.2 ⟨m, hi, hp⟩
  · intro hevery path p b hp
    cases path with
    | nil =>
      obtain ⟨-, rendered, rfl, -⟩ := standingIn?_nil_iff.1 hp
      cases hn
    | cons i path =>
      obtain ⟨inner', ns', m, hin, hm, hp⟩ := exists_of_standingIn?_cons hp
      obtain ⟨rfl, rfl⟩ := Prod.mk.inj (Option.some.inj (h.symm.trans hin))
      exact hevery m (List.mem_of_getElem? hm) path p b hp

theorem every_table : Every P closed .blocks (table attributes ns rendered) ↔
    ∀ n ∈ ns, Every P (closed || rendered) .rows n :=
  every_inside rfl rfl

theorem every_row : Every P closed .rows (row attributes ns rendered) ↔
    ∀ n ∈ ns, Every P (closed || rendered) .cells n :=
  every_inside rfl rfl

theorem every_cell : Every P closed .cells (cell attributes ns rendered) ↔
    ∀ n ∈ ns, Every P closed .blocks n := by
  rw [every_inside rfl rfl, show (closed || (Level.cells != .cells && _)) = closed from Bool.or_false _]

/-- In a node that is no row, no paragraph stands among rows. -/
theorem every_rows (h : ∀ attributes cells rendered, n = row attributes cells rendered →
    Every P closed .rows n) : Every P closed .rows n := by
  cases n with
  | row attributes cells rendered => exact h attributes cells rendered rfl
  | _ =>
    intro path p b hp
    cases path <;> cases hp

theorem Every.imp (h : Every P closed level n) (hPQ : ∀ b p, P b p → Q b p) :
    Every Q closed level n :=
  fun path p b hp => hPQ b p (h path p b hp)

end Every

/-! ## Closing -/

section Closing

variable {D : Paragraph → Prop} {closed : Bool} {level : Level} {n : Node} {path : Path}
  {p : Paragraph} {b : Bool}

/-- The same paragraphs stand in a node that is closed from outside, and they are closed. -/
theorem exists_of_standingIn?_true (h : standingIn? true level n path = some (p, b)) (closed : Bool) :
    b = true ∧ ∃ b', standingIn? closed level n path = some (p, b') := by
  induction path generalizing level n closed with
  | nil =>
    obtain ⟨hl, rendered, hn, hb⟩ := standingIn?_nil_iff.1 h
    exact ⟨hb, _, standingIn?_nil_iff.2 ⟨hl, rendered, hn, rfl⟩⟩
  | cons i path ih =>
    obtain ⟨inner, ns, m, hin, hm, h⟩ := exists_of_standingIn?_cons h
    obtain ⟨hb, b', h'⟩ := ih h (closed || (level != .cells && n.rendered))
    refine ⟨hb, b', ?_⟩
    rw [standingIn?_cons, hin, Option.bind_some]
    exact Option.bind_eq_some_iff.2 ⟨m, hm, h'⟩

theorem Every.close (h : Every (fun _ => D) closed level n) :
    Every (fun b p => b = true ∧ D p) true level n := by
  intro path p b hp
  obtain ⟨hb, b', hp'⟩ := exists_of_standingIn?_true hp closed
  exact ⟨hb, h path p b' hp'⟩

/-- A node that is marked as rendered is as one that is closed from outside. Only the mark of a cell
counts for nothing. -/
theorem standingIn?_markRendered (hl : level ≠ .cells) (n : Node) (path : Path) :
    standingIn? closed level n.markRendered path = standingIn? true level n path := by
  cases level with
  | cells => exact absurd rfl hl
  | _ => cases n <;> cases path <;> simp [standingIn?, markRendered]

theorem closed_of_rendered (hl : level ≠ .cells) (hr : n.rendered = true)
    (h : standingIn? closed level n path = some (p, b)) : b = true := by
  have hn : n.markRendered = n := by
    cases n <;> first
      | rfl
      | (cases hr; rfl)
  rw [← hn, standingIn?_markRendered hl] at h
  exact (exists_of_standingIn?_true h closed).1

theorem Every.markRendered (hl : level ≠ .cells) (h : Every (fun _ => D) closed level n)
    (closed' : Bool) : Every (fun b p => b = true ∧ D p) closed' level n.markRendered := by
  intro path p b hp
  rw [standingIn?_markRendered hl] at hp
  exact h.close path p b hp

end Closing

/-! ## Rewriting open paragraphs -/

section Rewriting

variable {f : Paragraph → Merging PendingImage Paragraph} {level : Level} {n m : Node}
  {ns ms : List Node} {path : Path} {p : Paragraph}

theorem gives_rewriteOpen_iff (index : Nat) :
    (rewriteOpen f level index ns).Gives ms ↔
      List.Forall₂ (fun n m => (rewriteOpenIn f level n).Gives m) ns ms := by
  induction ns generalizing index ms with
  | nil =>
    rw [rewriteOpen, gives_pure_iff, List.forall₂_nil_left_iff]
    exact eq_comm
  | cons n ns ih =>
    rw [rewriteOpen, List.forall₂_cons_left_iff]
    simp only [gives_bind_iff, gives_pure_iff, gives_under_iff, ih]
    constructor
    · rintro ⟨m, hm, ms', hms, rfl⟩
      exact ⟨m, ms', hm, hms, rfl⟩
    · rintro ⟨m, ms', hm, hms, rfl⟩
      exact ⟨m, hm, ms', hms, rfl⟩

/-- The paragraph that comes of one at the same place: a closed one is the same, and an open one is
rewritten and stays open. -/
def Rewritten (f : Paragraph → Merging PendingImage Paragraph) (x y : Paragraph × Bool) : Prop :=
  x.2 = y.2 ∧ if x.2 then x.1 = y.1 else (f x.1).Gives y.1

/-- A node that is left as it is has no open paragraphs. -/
theorem rewritten_self (h : ∀ p b, standingIn? false level n path = some (p, b) → b = true) :
    Option.Rel (Rewritten f) (standingIn? false level n path) (standingIn? false level n path) := by
  cases hx : standingIn? false level n path with
  | none => exact .none
  | some x =>
    have hb : x.2 = true := h x.1 x.2 hx
    exact .some ⟨rfl, by rw [if_pos hb]⟩

theorem rewritten_bind {g : Node → Option (Paragraph × Bool)}
    (h : List.Forall₂ (fun n m => (rewriteOpenIn f level n).Gives m) ns ms)
    (hg : ∀ n m, (rewriteOpenIn f level n).Gives m → Option.Rel (Rewritten f) (g n) (g m)) (i : Nat) :
    Option.Rel (Rewritten f) (ns[i]?.bind g) (ms[i]?.bind g) := by
  cases hn : ns[i]? with
  | none =>
    have hm : ms[i]? = none := by
      rw [List.getElem?_eq_none_iff] at hn ⊢
      rwa [← h.length_eq]
    rw [hm]
    exact .none
  | some n =>
    obtain ⟨m, hm, hnm⟩ := Merging.getElem?_of_forall₂ h hn
    rw [hm]
    exact hg n m hnm

/-- **Open paragraphs are rewritten around the closed ones**, each at its place. -/
theorem rewritten_rewriteOpenIn : ∀ (level : Level) (n m : Node) (path : Path),
    (rewriteOpenIn f level n).Gives m →
      Option.Rel (Rewritten f) (standingIn? false level n path) (standingIn? false level m path)
  | .blocks, .paragraph p false, _, path, h => by
    simp only [rewriteOpenIn, gives_bind_iff, gives_pure_iff] at h
    obtain ⟨q, hq, rfl⟩ := h
    cases path with
    | nil => exact .some ⟨rfl, hq⟩
    | cons i path => exact .none
  | .blocks, .table _ rows false, _, path, h => by
    simp only [rewriteOpenIn, gives_bind_iff, gives_pure_iff] at h
    obtain ⟨rows', hrows, rfl⟩ := h
    cases path with
    | nil => exact .none
    | cons i path =>
      exact rewritten_bind ((gives_rewriteOpen_iff 0).1 hrows)
        (fun n m => rewritten_rewriteOpenIn .rows n m path) i
  | .rows, .row _ cells false, _, path, h => by
    simp only [rewriteOpenIn, gives_bind_iff, gives_pure_iff] at h
    obtain ⟨cells', hcells, rfl⟩ := h
    cases path with
    | nil => exact .none
    | cons i path =>
      exact rewritten_bind ((gives_rewriteOpen_iff 0).1 hcells)
        (fun n m => rewritten_rewriteOpenIn .cells n m path) i
  | .cells, .cell _ children _, _, path, h => by
    simp only [rewriteOpenIn, gives_bind_iff, gives_pure_iff] at h
    obtain ⟨children', hchildren, rfl⟩ := h
    cases path with
    | nil => exact .none
    | cons i path =>
      exact rewritten_bind ((gives_rewriteOpen_iff 0).1 hchildren)
        (fun n m => rewritten_rewriteOpenIn .blocks n m path) i
  | .blocks, .paragraph _ true, _, _, h | .blocks, .table _ _ true, _, _, h
  | .rows, .row _ _ true, _, _, h => by
    simp only [rewriteOpenIn, gives_pure_iff] at h
    subst h
    exact rewritten_self fun p b hp => closed_of_rendered (by decide) rfl hp
  | .blocks, .row .., _, path, h | .blocks, .cell .., _, path, h | .blocks, .pageBreak _, _, path, h
  | .blocks, .verbatim _, _, path, h | .rows, .paragraph .., _, path, h
  | .rows, .table .., _, path, h | .rows, .cell .., _, path, h | .rows, .pageBreak _, _, path, h
  | .rows, .verbatim _, _, path, h | .cells, .paragraph .., _, path, h
  | .cells, .table .., _, path, h | .cells, .row .., _, path, h | .cells, .pageBreak _, _, path, h
  | .cells, .verbatim _, _, path, h => by
    simp only [rewriteOpenIn, gives_pure_iff] at h
    subst h
    refine rewritten_self fun p b hp => ?_
    cases path <;> cases hp

/-- Each paragraph stays at its place when the open ones are rewritten. -/
theorem rewritten_rewriteOpen (h : (rewriteOpen f .blocks 0 ns).Gives ms) (path : Path) :
    Option.Rel (Rewritten f) (standing? ns path) (standing? ms path) := by
  cases path with
  | nil => exact .none
  | cons i path =>
    exact rewritten_bind ((gives_rewriteOpen_iff 0).1 h)
      (fun n m => rewritten_rewriteOpenIn .blocks n m path) i

/-- **A closed paragraph is left alone** when the open ones are rewritten. -/
theorem standing_rewriteOpen (h : (rewriteOpen f .blocks 0 ns).Gives ms)
    (hp : standing? ns path = some (p, true)) : standing? ms path = some (p, true) := by
  have hrel := rewritten_rewriteOpen h path
  rw [hp] at hrel
  cases hy : standing? ms path with
  | none =>
    rw [hy] at hrel
    cases hrel
  | some y =>
    rw [hy] at hrel
    cases hrel with
    | some hxy =>
      obtain ⟨hb, hq⟩ := hxy
      rw [if_pos rfl] at hq
      exact congrArg some (Prod.ext hq.symm hb.symm)

/-- What the open paragraphs satisfy after they are rewritten, and the closed ones as before. -/
theorem every_rewriteOpen {P Q : Bool → Paragraph → Prop} {index : Nat}
    (hopen : ∀ p q, P false p → (f p).Gives q → Q false q) (hclosed : ∀ p, P true p → Q true p)
    (h : (rewriteOpen f level index ns).Gives ms) (hns : ∀ n ∈ ns, Every P false level n) :
    ∀ m ∈ ms, Every Q false level m := by
  intro m hm path q b hq
  obtain ⟨n, hn, hnm⟩ := Merging.exists_of_forall₂ ((gives_rewriteOpen_iff index).1 h).flip hm
  have hrel := rewritten_rewriteOpenIn level n m path hnm
  rw [hq] at hrel
  cases hx : standingIn? false level n path with
  | none =>
    rw [hx] at hrel
    cases hrel
  | some x =>
    obtain ⟨p, b'⟩ := x
    have hp := hns n hn path p b' hx
    rw [hx] at hrel
    cases hrel with
    | some hxy =>
      obtain ⟨rfl, hxy⟩ := hxy
      cases b' with
      | true =>
        obtain rfl : p = q := hxy
        exact hclosed p hp
      | false => exact hopen p q hp hxy

end Rewriting

/-! ## Page breaks -/

/-- What a paragraph has become in the end: nothing has changed, unless it was a lone page break
marker. -/
def Final (p : Paragraph) (n : Node) : Prop :=
  if Marker.isLonePageBreak p.text then n = pageBreak p.attributes else n.paragraph? = some p

/-- Each closed paragraph of the nodes is final in the merged nodes, at its place. -/
def FinalIn (nodes merged : List Node) : Prop :=
  ∀ path p, standing? nodes path = some (p, true) → ∃ n, at? merged path = some n ∧ Final p n

theorem getElem?_breakPages (level : Level) (ns : List Node) (i : Nat) :
    (breakPages level ns)[i]? = ns[i]?.map (breakPagesIn level) := by
  have hmap : breakPages level ns = ns.map (breakPagesIn level) := by
    induction ns with
    | nil => rfl
    | cons n ns ih => rw [breakPages, ih, List.map_cons]
  rw [hmap, List.getElem?_map]

theorem final_breakPagesIn (p : Paragraph) (rendered : Bool) :
    Final p (breakPagesIn .blocks (paragraph p rendered)) := by
  unfold Final
  rw [breakPagesIn]
  split
  · rfl
  · rfl

/-- A node inside another one is found from there on. -/
theorem at?_cons_of_getElem? {ns : List Node} {i : Nat} {n : Node} (h : ns[i]? = some n) (j : Nat)
    (path : Path) : at? ns (i :: j :: path) = at? n.children (j :: path) := by
  rw [at?, h]
  nofun

theorem children_breakPagesIn {level inner : Level} {n : Node} {ns : List Node}
    (h : inside level n = some (inner, ns)) :
    (breakPagesIn level n).children = breakPages inner ns := by
  cases level <;> cases n <;> cases h <;> simp [breakPagesIn, children]

/-- **Only lone page break markers are replaced.** -/
theorem exists_final_breakPages {closed : Bool} {level : Level} {ns : List Node} {i : Nat} {n : Node}
    {path : Path} {p : Paragraph} {b : Bool} (hn : ns[i]? = some n)
    (hp : standingIn? closed level n path = some (p, b)) :
    ∃ m, at? (breakPages level ns) (i :: path) = some m ∧ Final p m := by
  induction path generalizing closed level ns i n with
  | nil =>
    obtain ⟨rfl, rendered, rfl, -⟩ := standingIn?_nil_iff.1 hp
    refine ⟨_, ?_, final_breakPagesIn p rendered⟩
    show (breakPages .blocks ns)[i]? = _
    rw [getElem?_breakPages, hn]
    rfl
  | cons j path ih =>
    obtain ⟨inner, ms, m, hin, hm, hp⟩ := exists_of_standingIn?_cons hp
    have hbroken : (breakPages level ns)[i]? = some (breakPagesIn level n) := by
      rw [getElem?_breakPages, hn]
      rfl
    rw [at?_cons_of_getElem? hbroken, children_breakPagesIn hin]
    exact ih hm hp

theorem finalIn_breakPages (nodes : List Node) : FinalIn nodes (breakPages .blocks nodes) := by
  intro path p hp
  cases path with
  | nil => cases hp
  | cons i path =>
    obtain ⟨n, hn, hp⟩ := Option.bind_eq_some_iff.1 hp
    exact exists_final_breakPages hn hp

end MailMerge.Node
