import MailMerge.Merge.Basic
import MailMerge.Proofs.Tree.Standing
import Mathlib.Data.List.Nodup

/-!
# Places of paragraphs

The places of the paragraphs inside a node are seen from the node. Seen from a list that holds the node,
they begin with the node's index.

**`mem_paragraphsFrom_iff`**: the paragraphs of a list of nodes are those of each node, at its index.

**`sorted_paragraphsFrom`**: the paragraphs are listed in the order of their places, so that no two of
them have the same place.

**`exists_at?_of_mem`**: each paragraph is found at its place.

**`mem_placedParagraphs_iff`**: the paragraphs among blocks are those to which a path leads through
tables, rows and cells.

**`paragraphsFrom_breakPages`**: page breaks take the place of some paragraphs, and leave the others.
-/

namespace MailMerge.Node

variable {level : Level} {n : Node} {ns all : List Node} {index : Nat} {x : Path × Paragraph}

/-! ## Places seen from farther up -/

mutual

theorem paragraphsAt_append (above : Path) : ∀ (level : Level) (n : Node) (here : Path),
    paragraphsAt (above ++ here) level n = (paragraphsAt here level n).map fun x => (above ++ x.1, x.2)
  | .blocks, .paragraph _ _, _ => rfl
  | .blocks, .table _ rows _, here => paragraphsFrom_append above .rows rows here 0
  | .rows, .row _ cells _, here => paragraphsFrom_append above .cells cells here 0
  | .cells, .cell _ children _, here => paragraphsFrom_append above .blocks children here 0
  | .blocks, .row .., _ | .blocks, .cell .., _ | .blocks, .pageBreak _, _ | .blocks, .verbatim _, _
  | .rows, .paragraph .., _ | .rows, .table .., _ | .rows, .cell .., _ | .rows, .pageBreak _, _
  | .rows, .verbatim _, _ | .cells, .paragraph .., _ | .cells, .table .., _ | .cells, .row .., _
  | .cells, .pageBreak _, _ | .cells, .verbatim _, _ => rfl

theorem paragraphsFrom_append (above : Path) : ∀ (level : Level) (ns : List Node) (here : Path) (index : Nat),
    paragraphsFrom (above ++ here) index level ns =
      (paragraphsFrom here index level ns).map fun x => (above ++ x.1, x.2)
  | _, [], _, _ => rfl
  | level, n :: ns, here, index => by
    rw [paragraphsFrom, paragraphsFrom, List.map_append, List.append_assoc,
      paragraphsAt_append above level n, paragraphsFrom_append above level ns]

end

theorem paragraphsAt_singleton (level : Level) (n : Node) (index : Nat) :
    paragraphsAt [index] level n = (paragraphsAt [] level n).map fun x => (index :: x.1, x.2) :=
  paragraphsAt_append [index] level n []

/-- **The paragraphs of a list of nodes are those of each node**, at its index. -/
theorem mem_paragraphsFrom_iff : x ∈ paragraphsFrom [] index level ns ↔
    ∃ i n, ns[i]? = some n ∧ ∃ y ∈ paragraphsAt [] level n, x = ((index + i) :: y.1, y.2) := by
  induction ns generalizing index with
  | nil => simp [paragraphsFrom]
  | cons n ns ih =>
    rw [paragraphsFrom, List.mem_append, ih, List.nil_append, paragraphsAt_singleton, List.mem_map]
    constructor
    · rintro (⟨y, hy, rfl⟩ | ⟨i, m, hm, y, hy, rfl⟩)
      · exact ⟨0, n, rfl, y, hy, rfl⟩
      · exact ⟨i + 1, m, hm, y, hy, by rw [Nat.add_assoc, Nat.add_comm 1 i]⟩
    · rintro ⟨i, m, hm, y, hy, rfl⟩
      cases i with
      | zero =>
        obtain rfl := Option.some.inj hm
        exact .inl ⟨y, hy, rfl⟩
      | succ i => exact .inr ⟨i, m, hm, y, hy, by rw [Nat.add_assoc, Nat.add_comm 1 i]⟩

/-! ## The order of places -/

mutual

theorem sorted_paragraphsAt : ∀ (level : Level) (n : Node),
    ((paragraphsAt [] level n).map Prod.fst).Pairwise (· < ·)
  | .blocks, .paragraph _ _ => List.pairwise_singleton ..
  | .blocks, .table _ rows _ => sorted_paragraphsFrom .rows rows 0
  | .rows, .row _ cells _ => sorted_paragraphsFrom .cells cells 0
  | .cells, .cell _ children _ => sorted_paragraphsFrom .blocks children 0
  | .blocks, .row .. | .blocks, .cell .. | .blocks, .pageBreak _ | .blocks, .verbatim _
  | .rows, .paragraph .. | .rows, .table .. | .rows, .cell .. | .rows, .pageBreak _
  | .rows, .verbatim _ | .cells, .paragraph .. | .cells, .table .. | .cells, .row ..
  | .cells, .pageBreak _ | .cells, .verbatim _ => .nil

/-- **Paragraphs are listed in the order of their places.** -/
theorem sorted_paragraphsFrom : ∀ (level : Level) (ns : List Node) (index : Nat),
    ((paragraphsFrom [] index level ns).map Prod.fst).Pairwise (· < ·)
  | _, [], _ => .nil
  | level, n :: ns, index => by
    rw [paragraphsFrom, List.map_append, List.pairwise_append]
    refine ⟨?_, sorted_paragraphsFrom level ns (index + 1), ?_⟩
    · have hsorted := List.pairwise_map.1 (sorted_paragraphsAt level n)
      rw [List.nil_append, paragraphsAt_singleton, List.map_map, List.pairwise_map]
      exact hsorted.imp List.cons_lt_cons_self.2
    · intro a ha b hb
      rw [List.nil_append, paragraphsAt_singleton, List.map_map] at ha
      obtain ⟨x, -, rfl⟩ := List.mem_map.1 ha
      obtain ⟨y, hy, rfl⟩ := List.mem_map.1 hb
      obtain ⟨i, m, -, z, -, rfl⟩ := mem_paragraphsFrom_iff.1 hy
      exact List.cons_lt_cons_iff.2 (.inl (by omega))

end

/-- No two paragraphs have the same place. -/
theorem nodup_paragraphsFrom (level : Level) (ns : List Node) (index : Nat) :
    ((paragraphsFrom [] index level ns).map Prod.fst).Nodup := by
  refine (sorted_paragraphsFrom level ns index).imp ?_
  rintro a _ h rfl
  exact List.lt_irrefl a h

/-! ## Each paragraph is found at its place -/

/-- The paragraph is the node itself, or one of the nodes inside. -/
theorem mem_paragraphsAt_iff : x ∈ paragraphsAt [] level n ↔
    (level = .blocks ∧ x.1 = [] ∧ ∃ rendered, n = paragraph x.2 rendered) ∨
      ∃ inner ns, inside level n = some (inner, ns) ∧ x ∈ paragraphsFrom [] 0 inner ns := by
  constructor
  · intro h
    cases level <;> cases n
    case blocks.paragraph p rendered =>
      obtain rfl := List.mem_singleton.1 h
      exact .inl ⟨rfl, rfl, rendered, rfl⟩
    case blocks.table attributes rows rendered => exact .inr ⟨.rows, rows, rfl, h⟩
    case rows.row attributes cells rendered => exact .inr ⟨.cells, cells, rfl, h⟩
    case cells.cell attributes children rendered => exact .inr ⟨.blocks, children, rfl, h⟩
    all_goals cases h
  · rintro (⟨rfl, hx, rendered, rfl⟩ | ⟨inner, ns, hin, h⟩)
    · exact List.mem_singleton.2 (Prod.ext hx rfl)
    · cases level <;> cases n <;> cases hin <;> exact h

/-- **Each paragraph is found at its place.** -/
theorem exists_at?_of_mem {path : Path} {p : Paragraph} (h : (path, p) ∈ paragraphsFrom [] 0 level ns) :
    ∃ rendered, at? ns path = some (paragraph p rendered) := by
  induction path generalizing level ns with
  | nil =>
    obtain ⟨i, n, -, y, -, he⟩ := mem_paragraphsFrom_iff.1 h
    cases he
  | cons j path ih =>
    obtain ⟨i, n, hn, ⟨path', p'⟩, hy, he⟩ := mem_paragraphsFrom_iff.1 h
    obtain ⟨hpath, rfl⟩ := Prod.mk.inj he
    obtain ⟨hj, rfl⟩ := List.cons.inj hpath
    obtain rfl : j = i := hj.trans (Nat.zero_add i)
    rcases mem_paragraphsAt_iff.1 hy with ⟨-, rfl, rendered, rfl⟩ | ⟨inner, ms, hin, hm⟩
    · exact ⟨rendered, hn⟩
    · obtain ⟨rendered, hrendered⟩ := ih hm
      cases path with
      | nil => cases hrendered
      | cons k path => exact ⟨rendered, by rwa [at?_cons_of_getElem? hn, children_of_inside hin]⟩

/-! ## Paths to paragraphs -/

/-- A path leads from blocks to a paragraph: to one of them, or through a table among them, one of its
rows and one of the cells in that, to a paragraph in the cell. -/
inductive LeadsTo (p : Paragraph) : (blocks : List Node) → Path → Prop
  | block {blocks : List Node} {i : Nat} {rendered : Bool}
      (hp : blocks[i]? = some (paragraph p rendered)) : LeadsTo p blocks [i]
  | cell {blocks rows cells children : List Node} {i j k : Nat} {path : Path}
      {ofTable ofRow ofCell : Text} {tableDone rowDone cellDone : Bool}
      (ht : blocks[i]? = some (table ofTable rows tableDone)) (hr : rows[j]? = some (row ofRow cells rowDone))
      (hc : cells[k]? = some (cell ofCell children cellDone)) (h : LeadsTo p children path) :
      LeadsTo p blocks (i :: j :: k :: path)

/-- The first step of a path to a paragraph, at any level. -/
theorem mem_paragraphsFrom_step {path : Path} {p : Paragraph} :
    (path, p) ∈ paragraphsFrom [] 0 level ns ↔ ∃ i n, ns[i]? = some n ∧
      ((level = .blocks ∧ path = [i] ∧ ∃ rendered, n = paragraph p rendered) ∨
        ∃ inner ms rest, inside level n = some (inner, ms) ∧ path = i :: rest ∧
          (rest, p) ∈ paragraphsFrom [] 0 inner ms) := by
  rw [mem_paragraphsFrom_iff]
  simp only [Nat.zero_add]
  constructor
  · rintro ⟨i, n, hn, ⟨rest, q⟩, hy, he⟩
    obtain ⟨rfl, rfl⟩ := Prod.mk.inj he
    refine ⟨i, n, hn, ?_⟩
    rcases mem_paragraphsAt_iff.1 hy with ⟨hl, rfl, hp⟩ | ⟨inner, ms, hin, hm⟩
    · exact .inl ⟨hl, rfl, hp⟩
    · exact .inr ⟨inner, ms, rest, hin, rfl, hm⟩
  · rintro ⟨i, n, hn, ⟨hl, rfl, hp⟩ | ⟨inner, ms, rest, hin, rfl, hm⟩⟩
    · exact ⟨i, n, hn, ([], p), mem_paragraphsAt_iff.2 (.inl ⟨hl, rfl, hp⟩), rfl⟩
    · exact ⟨i, n, hn, (rest, p), mem_paragraphsAt_iff.2 (.inr ⟨inner, ms, hin, hm⟩), rfl⟩

theorem leadsTo_of_mem {ns : List Node} {path : Path} {p : Paragraph}
    (h : (path, p) ∈ paragraphsFrom [] 0 .blocks ns) : LeadsTo p ns path := by
  obtain ⟨i, n, hn, ⟨-, rfl, rendered, rfl⟩ | ⟨inner, rows, path₁, hin, rfl, h₁⟩⟩ :=
    mem_paragraphsFrom_step.1 h
  · exact .block hn
  · cases n <;> cases hin
    obtain ⟨j, m, hm, ⟨hl, -⟩ | ⟨inner, cells, path₂, hin, rfl, h₂⟩⟩ := mem_paragraphsFrom_step.1 h₁
    · cases hl
    · cases m <;> cases hin
      obtain ⟨k, l, hl, ⟨hl', -⟩ | ⟨inner, children, path₃, hin, rfl, h₃⟩⟩ := mem_paragraphsFrom_step.1 h₂
      · cases hl'
      · cases l <;> cases hin
        exact .cell hn hm hl (leadsTo_of_mem h₃)
  termination_by path.length

/-- **The paragraphs among blocks are those to which a path leads.** -/
theorem mem_placedParagraphs_iff {path : Path} {p : Paragraph} :
    (path, p) ∈ placedParagraphs ns ↔ LeadsTo p ns path := by
  refine ⟨leadsTo_of_mem, fun h => ?_⟩
  induction h with
  | block hp => exact mem_paragraphsFrom_step.2 ⟨_, _, hp, .inl ⟨rfl, rfl, _, rfl⟩⟩
  | @cell blocks rows cells children i j k path _ _ _ _ _ _ ht hr hc _ ih =>
    have hcells : (k :: path, p) ∈ paragraphsFrom [] 0 .cells cells :=
      mem_paragraphsFrom_step.2 ⟨k, _, hc, .inr ⟨.blocks, children, path, rfl, rfl, ih⟩⟩
    have hrows : (j :: k :: path, p) ∈ paragraphsFrom [] 0 .rows rows :=
      mem_paragraphsFrom_step.2 ⟨j, _, hr, .inr ⟨.cells, cells, _, rfl, rfl, hcells⟩⟩
    exact mem_paragraphsFrom_step.2 ⟨i, _, ht, .inr ⟨.rows, rows, _, rfl, rfl, hrows⟩⟩

/-! ## Page breaks -/

mutual

/-- Page breaks leave the paragraphs that are no lone page break markers. -/
theorem paragraphsAt_breakPagesIn : ∀ (level : Level) (n : Node) (here : Path),
    paragraphsAt here level (breakPagesIn level n) =
      (paragraphsAt here level n).filter fun x => !Marker.isLonePageBreak x.2.text
  | .blocks, .paragraph p rendered, here => by
    rw [breakPagesIn]
    cases hp : Marker.isLonePageBreak p.text <;> simp [paragraphsAt, hp]
  | .blocks, .table _ rows _, here => paragraphsFrom_breakPages .rows rows here 0
  | .rows, .row _ cells _, here => paragraphsFrom_breakPages .cells cells here 0
  | .cells, .cell _ children _, here => paragraphsFrom_breakPages .blocks children here 0
  | .blocks, .row .., _ | .blocks, .cell .., _ | .blocks, .pageBreak _, _ | .blocks, .verbatim _, _
  | .rows, .paragraph .., _ | .rows, .table .., _ | .rows, .cell .., _ | .rows, .pageBreak _, _
  | .rows, .verbatim _, _ | .cells, .paragraph .., _ | .cells, .table .., _ | .cells, .row .., _
  | .cells, .pageBreak _, _ | .cells, .verbatim _, _ => rfl

theorem paragraphsFrom_breakPages : ∀ (level : Level) (ns : List Node) (above : Path) (index : Nat),
    paragraphsFrom above index level (breakPages level ns) =
      (paragraphsFrom above index level ns).filter fun x => !Marker.isLonePageBreak x.2.text
  | _, [], _, _ => rfl
  | level, n :: ns, above, index => by
    rw [breakPages, paragraphsFrom, paragraphsFrom, List.filter_append,
      paragraphsAt_breakPagesIn level n, paragraphsFrom_breakPages level ns]

end

end MailMerge.Node
