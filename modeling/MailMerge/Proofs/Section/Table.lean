import MailMerge.Proofs.Section.RowSets

/-!
# The rows of an expanded table

A table falls into groups: the rows of a section, from its opening row to its closing row, and every
other row by itself. Each group is expanded at its own place. A section becomes its rows once for
each record, and a row by itself stays, with the sections inside its cells expanded.

**`expandTable_groups`**: a table is expanded group by group.
-/

namespace MailMerge.Section

open Merging (Gives gives_bind_iff gives_pure_iff)

variable {settings : Settings} {c : Context}

/-! ## Groups of rows -/

/-- A row in no section, or the rows of a section with its markers. -/
inductive Group where
  | single (row : Node)
  | repeated (opener : Marker) (closer : Option Marker) (rows : List Node)

/-- The rows of the group. -/
def Group.rows : Group → List Node
  | single row => [row]
  | repeated _ _ rows => rows

/-- The groups of rows. A section goes from the row with its opening marker to the row with its
closing marker; without one it is the first of these rows alone. -/
def groups : List Node → List Group
  | [] => []
  | r :: rs =>
    match rowOpener? r with
    | none => .single r :: groups rs
    | some opener =>
      match closingText? opener ((r :: rs).map Node.text) with
      | none => .repeated opener none [r] :: groups rs
      | some (count, closer) =>
        .repeated opener (some closer) (r :: rs.take count) :: groups (rs.drop count)
  termination_by rows => rows.length
  decreasing_by
    · simp
    · simp
    · simp only [List.length_cons, List.length_drop]
      omega

/-- **Every row is in one group**, and the groups are in order. -/
theorem flatMap_rows_groups (rows : List Node) : (groups rows).flatMap Group.rows = rows := by
  fun_induction groups rows with
  | case1 => rfl
  | case2 r rs h ih => rw [List.flatMap_cons, ih]; rfl
  | case3 r rs opener h hc ih => rw [List.flatMap_cons, ih]; rfl
  | case4 r rs opener h count closer hc ih =>
    rw [List.flatMap_cons, ih, Group.rows, List.cons_append, List.take_append_drop]

/-! ## The rows of a table -/

/-- The row with its sections expanded inside its cells, which keep their properties. -/
structure RowKept (settings : Settings) (c : Context) (nested : Bool) (row row' : Node) : Prop where
  expanded : (expandRow settings c nested row).Gives row'
  attributes : row'.attributes = row.attributes
  rendered : row'.rendered = row.rendered
  cells : row'.children.map Node.attributes = row.children.map Node.attributes

/-- What a group becomes: a row in no section is kept, a section becomes its rows for each record. -/
def Group.Becomes (settings : Settings) (c : Context) (nested : Bool) : Group → List Node → Prop
  | single row, made => ∃ row', made = [row'] ∧ RowKept settings c nested row row'
  | repeated opener closer rows, made => RowsFor settings c nested opener closer rows made

theorem attributes_of_gives_expandCell {nested : Bool} {cell cell' : Node}
    (h : (expandCell settings c nested cell).Gives cell') : cell'.attributes = cell.attributes := by
  unfold expandCell at h
  split at h
  · obtain ⟨children, -, h⟩ := gives_bind_iff.1 h
    obtain rfl := gives_pure_iff.1 h
    rfl
  · rw [gives_pure_iff.1 h]

theorem rowKept_of_gives {nested : Bool} {row row' : Node}
    (h : (expandRow settings c nested row).Gives row') : RowKept settings c nested row row' := by
  have hexpanded := h
  unfold expandRow at h
  split at h
  · obtain ⟨cells, hcells, h⟩ := gives_bind_iff.1 h
    obtain rfl := gives_pure_iff.1 h
    refine ⟨hexpanded, rfl, rfl, ?_⟩
    rw [Merging.gives_forEach_iff] at hcells
    have hmap : cells.map Node.attributes = _ :=
      Merging.map_eq_of_forall₂ (f := fun x => x.val.attributes) hcells fun x y h =>
        attributes_of_gives_expandCell h
    exact hmap.trans List.attach_map_val
  · obtain rfl := gives_pure_iff.1 h
    exact ⟨hexpanded, rfl, rfl, rfl⟩

/-- The slots of a group: the row in no section, or the rows that the section became. -/
def Group.Slots {α : Type} (settings : Settings) (c : Context) (nested : Bool) (node : α → Node) :
    Group → List (Slot α) → Prop
  | single row, slots => ∃ x, slots = [.kept x] ∧ node x = row
  | repeated opener closer rows, slots =>
    ∃ made, slots = made.map .made ∧ (renderRows settings c nested opener closer rows).Gives made

/-- There is a warning for each section that is never closed. -/
def Reported (gs : List Group) (log : Log PendingImage) : Prop :=
  ∀ opener rows, .repeated opener none rows ∈ gs → .unclosedRows opener.label ∈ log.warnings

/-- The group that a section starts: its rows, and those that follow it. -/
theorem groups_of_rowSection {α : Type} {node : α → Node} {r : α} {rs : List α} {opener : Marker}
    (ho : rowOpener? (node r) = some opener) {count : Nat} {closer : Option Marker}
    {log : Log PendingImage}
    (h : rowSection opener ((r :: rs).map fun x => (node x).text) = Except.ok ((count, closer), log)) :
    groups ((r :: rs).map node) =
        .repeated opener closer ((r :: rs.take count).map node) :: groups ((rs.drop count).map node) ∧
      (closer = none → .unclosedRows opener.label ∈ log.warnings) := by
  have htexts : ((node r :: rs.map node).map Node.text) = (r :: rs).map fun x => (node x).text := by
    rw [← List.map_cons, List.map_map]
    rfl
  unfold rowSection at h
  rw [List.map_cons, groups, ho]
  dsimp only
  rw [htexts]
  split at h
  · next count closer hc =>
    obtain ⟨he, rfl⟩ := Prod.mk.inj (Except.ok.inj h)
    obtain ⟨rfl, rfl⟩ := Prod.mk.inj he
    refine ⟨?_, fun hn => by cases hn⟩
    rw [hc, List.map_cons, List.map_take, List.map_drop]
  · next hc =>
    obtain ⟨he, rfl⟩ := Prod.mk.inj (Except.ok.inj h)
    obtain ⟨rfl, rfl⟩ := Prod.mk.inj he
    refine ⟨?_, fun _ => List.mem_cons_self⟩
    rw [hc]
    rfl

theorem Reported.cons {g : Group} {gs : List Group} {log rest : Log PendingImage}
    (hgs : Reported gs rest) (hrest : rest.warnings ⊆ log.warnings)
    (hg : ∀ opener rows, g = .repeated opener none rows →
      .unclosedRows opener.label ∈ log.warnings) : Reported (g :: gs) log := by
  intro opener rows hm
  rcases List.mem_cons.1 hm with h | h
  · exact hg opener rows h.symm
  · exact hrest (hgs opener rows h)

/-- **The rows fall into the groups**: each row in no section gets its slot, each section the slots of
the rows that it becomes. -/
theorem expandRows_groups {α : Type} {nested : Bool} {node : α → Node} {xs : List α}
    {slots : List (Slot α)} {log : Log PendingImage}
    (h : expandRows settings c nested node xs = Except.ok (slots, log)) :
    (∃ parts : List (List (Slot α)), slots = parts.flatten ∧
      List.Forall₂ (Group.Slots settings c nested node) (groups (xs.map node)) parts) ∧
    Reported (groups (xs.map node)) log := by
  fun_induction expandRows settings c nested node xs generalizing slots log with
  | case1 =>
    obtain ⟨rfl, rfl⟩ := Prod.mk.inj (Except.ok.inj h)
    rw [List.map_nil, groups]
    exact ⟨⟨[], rfl, .nil⟩, fun opener rows hm => absurd hm List.not_mem_nil⟩
  | case2 r rs ho ih =>
    obtain ⟨rest, first, second, hrest, hpure, rfl⟩ := Merging.bind_eq_ok_iff.1 h
    obtain ⟨rfl, rfl⟩ := Prod.mk.inj (Except.ok.inj hpure)
    obtain ⟨log, hrest, hlog⟩ := Merging.exists_of_mapImages hrest
    obtain ⟨⟨parts, rfl, hparts⟩, hreported⟩ := ih hrest
    rw [List.map_cons, groups, ho]
    refine ⟨⟨[.kept r] :: parts, rfl, .cons ⟨r, rfl, rfl⟩ hparts⟩, ?_⟩
    refine hreported.cons ?_ fun opener rows hg => by cases hg
    rw [hlog]
    exact List.subset_append_left _ _
  | case3 r rs opener ho ih =>
    obtain ⟨⟨count, closer⟩, first, more, hsection, hmore, rfl⟩ := Merging.bind_eq_ok_iff.1 h
    obtain ⟨made, second, most, hmade, hmost, rfl⟩ := Merging.bind_eq_ok_iff.1 hmore
    obtain ⟨rest, third, fourth, hrest, hpure, rfl⟩ := Merging.bind_eq_ok_iff.1 hmost
    obtain ⟨rfl, rfl⟩ := Prod.mk.inj (Except.ok.inj hpure)
    obtain ⟨log, hrest, hlog⟩ := Merging.exists_of_mapImages hrest
    obtain ⟨⟨parts, rfl, hparts⟩, hreported⟩ := ih count hrest
    obtain ⟨hgroups, hwarned⟩ := groups_of_rowSection ho hsection
    rw [hgroups]
    refine ⟨⟨made.map .made :: parts, rfl, .cons ⟨made, rfl, second, hmade⟩ hparts⟩, ?_⟩
    apply hreported.cons
    · rw [hlog]
      intro w hw
      exact List.mem_append_right _ (List.mem_append_right _ (List.mem_append_left _ hw))
    · intro opener' rows hg
      obtain ⟨rfl, rfl, -⟩ := Group.repeated.inj hg
      exact List.mem_append_left _ (hwarned rfl)

/-- What is left to do with a slot: sections in the cells of a row that was there are expanded. -/
def finishSlot {rows : List Node} (settings : Settings) (c : Context) (nested : Bool) :
    Slot {row // row ∈ rows} → Merging PendingImage Node
  | .made row => pure row
  | .kept row => expandRow settings c nested row.val

theorem becomes_of_slots {nested : Bool} {rows : List Node} {g : Group}
    (hrows : ∀ row ∈ g.rows, row.isRow) {slots : List (Slot {row // row ∈ rows})}
    (h : g.Slots settings c nested Subtype.val slots) {segment : List Node}
    (hs : List.Forall₂ (fun slot row => (finishSlot settings c nested slot).Gives row) slots
      segment) : g.Becomes settings c nested segment := by
  cases g with
  | single row =>
    obtain ⟨x, rfl, rfl⟩ := h
    obtain ⟨row', _, hrow, hnil, rfl⟩ := List.forall₂_cons_left_iff.1 hs
    obtain rfl := List.forall₂_nil_left_iff.1 hnil
    exact ⟨row', rfl, rowKept_of_gives hrow⟩
  | repeated opener closer rs =>
    obtain ⟨made, rfl, hmade⟩ := h
    rw [List.forall₂_map_left_iff] at hs
    have hsame := Merging.map_eq_of_forall₂ (f := id) (g := id) hs fun row row' h =>
      (gives_pure_iff.1 h).symm
    rw [List.map_id, List.map_id] at hsame
    rw [hsame]
    exact rowsFor_of_gives hrows hmade

theorem becomes_of_parts {nested : Bool} {rows : List Node} {gs : List Group}
    (hrows : ∀ g ∈ gs, ∀ row ∈ g.rows, row.isRow) {parts : List (List (Slot {row // row ∈ rows}))}
    (hparts : List.Forall₂ (Group.Slots settings c nested Subtype.val) gs parts)
    {segments : List (List Node)}
    (hs : List.Forall₂
      (List.Forall₂ fun slot row => (finishSlot settings c nested slot).Gives row) parts segments) :
    List.Forall₂ (Group.Becomes settings c nested) gs segments := by
  induction hparts generalizing segments with
  | nil =>
    obtain rfl := List.forall₂_nil_left_iff.1 hs
    exact .nil
  | cons hg _ ih =>
    obtain ⟨segment, rest, hsegment, hrest, rfl⟩ := List.forall₂_cons_left_iff.1 hs
    have hfirst := becomes_of_slots (hrows _ List.mem_cons_self) hg hsegment
    exact .cons hfirst (ih (fun g hg => hrows g (List.mem_cons_of_mem _ hg)) hrest)

/-- **A table is expanded group by group.** Every row is in one group. A row in no section is kept at
its place, and a section becomes its rows for each record, with a warning if it is never closed. -/
theorem expandTable_groups {nested : Bool} {rows out : List Node} {log : Log PendingImage}
    (hrows : rows.all Node.isRow)
    (h : expandTable settings c nested rows = Except.ok (out, log)) :
    (groups rows).flatMap Group.rows = rows ∧
    (∃ segments, out = segments.flatten ∧
      List.Forall₂ (Group.Becomes settings c nested) (groups rows) segments) ∧
    Reported (groups rows) log := by
  have hall : ∀ g ∈ groups rows, ∀ row ∈ g.rows, row.isRow := by
    intro g hg row hrow
    rw [← flatMap_rows_groups rows] at hrows
    exact List.all_eq_true.1 hrows row (List.mem_flatMap.2 ⟨g, hg, hrow⟩)
  unfold expandTable at h
  obtain ⟨slots, first, second, hslots, hout, rfl⟩ := Merging.bind_eq_ok_iff.1 h
  obtain ⟨⟨parts, rfl, hparts⟩, hreported⟩ := expandRows_groups hslots
  rw [List.attach_map_subtype_val] at hparts hreported
  have hfinished : List.Forall₂ (fun slot row => (finishSlot settings c nested slot).Gives row)
      parts.flatten out :=
    Merging.gives_forEach_iff.1 ⟨second, hout⟩
  obtain ⟨segments, rfl, hsegments⟩ := Merging.exists_of_forall₂_flatten hfinished
  refine ⟨flatMap_rows_groups rows, ⟨segments, rfl, ?_⟩, ?_⟩
  · exact becomes_of_parts hall hparts hsegments
  · intro opener rs hm
    exact List.mem_append_left _ (hreported opener rs hm)

/-- A heading, a row for each item, and a row for the total. -/
def priceList : List Node :=
  [.row "h".toList [.cell [] [Node.ofText "Item"]],
    .row "i".toList [.cell "c".toList
      [Node.ofText (Marker.enclose "#Items" ++ Marker.enclose "Name" ++ Marker.enclose "/Items")]],
    .row "t".toList [.cell [] [Node.ofText "Total"]]]

/-- Tea and milk. -/
def pantry : Context where
  data := [("Items", .list [.record [("Name", .text "tea")], .record [("Name", .text "milk")]])]

/-- The rows for tea and milk come one after the other between the heading and the total. -/
theorem expandTable_priceList : ∃ out : List Node,
    out.map (fun row => (row.attributes, row.text)) =
      [("h".toList, "Item".toList), ("i".toList, "tea".toList), ("i".toList, "milk".toList),
        ("t".toList, "Total".toList)] ∧
    ∃ segments, out = segments.flatten ∧
      List.Forall₂ (Group.Becomes {} pantry false) (groups priceList) segments := by
  have htexts : (expandTable {} pantry false priceList).toOption.map
      (fun r => r.1.map fun row => (row.attributes, row.text)) =
      some [("h".toList, "Item".toList), ("i".toList, "tea".toList), ("i".toList, "milk".toList),
        ("t".toList, "Total".toList)] := by
    decide +kernel
  cases hr : expandTable {} pantry false priceList with
  | error e =>
    rw [hr] at htexts
    cases htexts
  | ok r =>
    rw [hr] at htexts
    obtain ⟨-, hsegments, -⟩ := expandTable_groups (by decide) hr
    exact ⟨r.1, Option.some.inj htexts, hsegments⟩

end MailMerge.Section
