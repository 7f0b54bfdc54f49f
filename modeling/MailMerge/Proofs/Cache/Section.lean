import MailMerge.Proofs.Cache.Agreement
import MailMerge.Section.Expansion

/-!
# Expanding sections in a tree, with a cache

The stage that expands sections reads the texts of the paragraphs of a list of blocks, and of the rows of
a table, while it looks for the opening marker of a section and for the marker that closes it. The nodes
of a section are then written into for the first record, and copied for the others. When the list or
the table has its new nodes, the texts are forgotten; a paragraph that is rendered by itself has them
forgotten at once. The texts of written nodes may be kept in between.
-/

namespace MailMerge

open Section (BlockTemplate Slot captureBlock captureBoundary closingText? findCloser findCloserIn
  firstOpener? markersOf withoutFirst withoutLast)

/-- The slot with its row handed over to a function, if it is one that was there. -/
def Section.Slot.map {α β : Type} (f : α → β) : Slot α → Slot β
  | .kept row => .kept (f row)
  | .made row => .made row

namespace Cached

variable {ι : Type}

/-! ## The end of a section -/

/-- Where the closing marker stands, after openers of which `depth` are unclosed; the texts of the nodes
are looked at in turn. -/
def closingFrom (opener : Marker) (look : Keyed → Cached ι Text) (depth : Int) :
    List Keyed → Cached ι (Option (Nat × Marker))
  | [] => pure none
  | n :: ns => do
    let t ← look n
    match findCloser opener depth (markersOf t) with
    | (some closer, _) => return some (0, closer)
    | (none, depth) =>
      return (← closingFrom opener look depth ns).map fun (i, closer) => (i + 1, closer)

/-- Where a section that an opener in the first node starts is closed. -/
def closing? (opener : Marker) (look : Keyed → Cached ι Text) :
    List Keyed → Cached ι (Option (Nat × Marker))
  | [] => pure none
  | n :: ns => do
    let t ← look n
    match findCloser opener 1 ((markersOf t).filter fun m => opener.start < m.start) with
    | (some closer, _) => return some (0, closer)
    | (none, depth) =>
      return (← closingFrom opener look depth ns).map fun (i, closer) => (i + 1, closer)

/-- The text of a block: only paragraphs are read. -/
def readBlock (n : Keyed) : Cached ι Text :=
  match n.head with
  | .paragraph .. => read n
  | _ => pure []

section Looking

variable {ns : List Keyed}

theorem looks_closingFrom {opener : Marker} {look : Keyed → Cached ι Text} {text : Keyed → Text}
    (depth : Int) {ms : List Keyed} (hlook : ∀ m ∈ ms, Looks ns (look m) (text m)) :
    Looks ns (closingFrom opener look depth ms)
      (findCloserIn opener depth (ms.map fun m => markersOf (text m))) := by
  induction ms generalizing depth with
  | nil => exact .pure none
  | cons m ms ih =>
    have ih := fun depth => ih depth fun x hx => hlook x (List.mem_cons_of_mem m hx)
    rw [closingFrom, List.map_cons, findCloserIn]
    refine (hlook m List.mem_cons_self).bind ?_
    rcases findCloser opener depth (markersOf (text m)) with ⟨_ | closer, d⟩
    · exact (ih d).map fun found => found.map fun (i, closer) => (i + 1, closer)
    · exact .pure _

theorem looks_closing? {opener : Marker} {look : Keyed → Cached ι Text} {text : Keyed → Text}
    {ms : List Keyed} (hlook : ∀ m ∈ ms, Looks ns (look m) (text m)) :
    Looks ns (closing? opener look ms) (closingText? opener (ms.map text)) := by
  cases ms with
  | nil => exact .pure none
  | cons m ms =>
    have hrest := fun depth => @looks_closingFrom _ ns opener look text depth ms fun x hx =>
      hlook x (List.mem_cons_of_mem m hx)
    rw [closing?, List.map_cons, closingText?, findCloserIn, List.map_map]
    refine (hlook m List.mem_cons_self).bind ?_
    rcases findCloser opener 1 _ with ⟨_ | closer, d⟩
    · exact (hrest d).map fun found => found.map fun (i, closer) => (i + 1, closer)
    · exact .pure _

theorem looks_readBlock {n : Keyed} (hn : n ∈ Keyed.allOf ns) :
    Looks ns (readBlock n : Cached ι Text) (n.forget.paragraph?.elim [] (·.text)) := by
  have hread := Looks.read (ι := ι) hn
  obtain ⟨key, head, inside⟩ := n
  cases head with
  | paragraph p rendered => exact hread
  | table | row | cell | pageBreak | verbatim => exact .pure []

end Looking

/-! ## Rows -/

/-- The marker that starts a section in a row. A row that is rendered already is not read. -/
def rowOpener? (row : Keyed) : Cached ι (Option Marker) :=
  if row.head.rendered then pure none else return firstOpener? (← read row)

/-- Where a section that starts in the first of the rows ends. -/
def rowSection (opener : Marker) (rows : List Keyed) : Cached ι (Nat × Option Marker) := do
  match ← closing? opener read rows with
  | some (count, closer) => return (count, some closer)
  | none => do
    lift (Merging.warn (.unclosedRows opener.label))
    return (0, none)

variable (settings : Settings)

/-- The rows of a table with its sections expanded, and whether there were any. -/
def expandRows {α : Type} (c : Context) (nested : Bool) (node : α → Keyed) :
    List α → Cached PendingImage (List (Slot α) × Bool)
  | [] => pure ([], false)
  | r :: rs => do
    match ← rowOpener? (node r) with
    | none =>
      let (rest, changed) ← (expandRows c nested node rs).shifted 1
      return (.kept r :: rest, changed)
    | some opener =>
      let (count, closer) ← rowSection opener ((r :: rs).map node)
      let made ← lift (Section.renderRows settings c nested opener closer
        ((r :: rs.take count).map fun x => (node x).forget))
      let (rest, _) ← (expandRows c nested node (rs.drop count)).shifted made.length
      return (made.map .made ++ rest, true)
  termination_by rows => rows.length
  decreasing_by
    · simp
    · simp only [List.length_cons, List.length_drop]
      omega

/-! ## Blocks -/

/-- The blocks of a section, captured without its markers, with the nodes that they were captured
from. -/
def captureBlocks (opener closer : Marker) (first : Keyed) (between : List Keyed)
    (last : Option Keyed) : List (BlockTemplate × Keyed) :=
  ((captureBoundary (withoutFirst opener.text) first.forget).map (·, first)).toList
    ++ between.map (fun n => (captureBlock n.forget, n))
    ++ (last.bind fun n =>
      (captureBoundary (withoutLast closer.text) n.forget).map (·, n)).toList

/-- Two steps that make nodes and may change a list, one after the other. -/
def followedBy (x y : Cached PendingImage (List Node × Bool)) :
    Cached PendingImage (List Node × Bool) := do
  let (first, changed) ← x
  let (second, changed') ← y.shifted first.length
  return (first ++ second, changed || changed')

/-- The nodes that a step made. If they take the place of other ones, the texts are forgotten. -/
def settled (x : Cached PendingImage (List Node × Bool)) : Cached PendingImage (List Node) := do
  let (nodes, changed) ← x
  if changed then invalidate
  return nodes

theorem map_fst_captureBlocks (opener closer : Marker) (first : Keyed) (between : List Keyed)
    (last : Option Keyed) :
    (captureBlocks opener closer first between last).map Prod.fst =
      Section.captureBlocks opener closer first.forget (Keyed.forgetAll between)
        (last.map Keyed.forget) := by
  have hone : ∀ (o : Option BlockTemplate) (n : Keyed), (o.map (·, n)).toList.map Prod.fst = o.toList := by
    intro o n
    cases o <;> rfl
  have hlast : (last.bind fun n =>
      (captureBoundary (withoutLast closer.text) n.forget).map (·, n)).toList.map Prod.fst =
        ((last.map Keyed.forget).bind (captureBoundary (withoutLast closer.text))).toList := by
    cases last with
    | none => rfl
    | some n => exact hone _ n
  unfold captureBlocks Section.captureBlocks
  rw [List.map_append, List.map_append, hone, hlast, List.map_map, Keyed.forgetAll_eq_map, List.map_map]
  rfl

/-- The nodes of the templates are nodes of the section. -/
theorem map_snd_captureBlocks_sublist (opener closer : Marker) (first : Keyed) (ns : List Keyed)
    (count : Nat) :
    ((captureBlocks opener closer first (ns.take count) ns[count]?).map Prod.snd).Sublist
      (first :: ns.take (count + 1)) := by
  have hone : ∀ (o : Option BlockTemplate) (n : Keyed),
      ((o.map (·, n)).toList.map Prod.snd).Sublist [n] := by
    intro o n
    cases o with
    | none => exact List.nil_sublist _
    | some t => exact .refl _
  have hlast : ∀ last : Option Keyed, ((last.bind fun n =>
      (captureBoundary (withoutLast closer.text) n.forget).map (·, n)).toList.map Prod.snd).Sublist
        last.toList := by
    intro last
    cases last with
    | none => exact .slnil
    | some n => exact hone _ n
  have hbetween : (ns.take count).map (Prod.snd ∘ fun n => (captureBlock n.forget, n)) =
      ns.take count := List.map_id _
  unfold captureBlocks
  rw [List.map_append, List.map_append, List.map_map, hbetween, List.take_add_one, List.append_assoc]
  exact (hone _ first).append ((List.Sublist.refl _).append (hlast _))

theorem size_of_mem_captureBlocks {opener closer : Marker} {first : Keyed} {ns : List Keyed}
    {count : Nat} {template : BlockTemplate × Keyed}
    (h : template ∈ captureBlocks opener closer first (ns.take count) ns[count]?) :
    template.2.size < Keyed.sizes (first :: ns) := by
  have hsub := (map_snd_captureBlocks_sublist opener closer first ns count).trans
    ((List.take_sublist (count + 1) ns).cons_cons first)
  exact Keyed.size_lt_of_mem (hsub.subset (List.mem_map_of_mem h))

/-- The copy of a block in another node is a copy of that node. -/
theorem eq_forget_of_mem_captureBlocks {opener closer : Marker} {first n : Keyed} {m : Node}
    {between : List Keyed} {last : Option Keyed}
    (h : (.node m, n) ∈ captureBlocks opener closer first between last) : m = n.forget := by
  simp only [captureBlocks, List.mem_append, List.mem_map, Option.mem_toList, Option.map_eq_some_iff,
    Option.bind_eq_some_iff, Prod.mk.injEq] at h
  rcases h with (⟨t, ht, rfl, rfl⟩ | ⟨x, -, hx, rfl⟩) | ⟨x, -, t, ht, rfl, rfl⟩
  · exact Section.eq_of_captureBoundary_eq ht
  · exact Section.eq_of_captureBlock_eq hx
  · exact Section.eq_of_captureBoundary_eq ht

mutual

/-- A list of blocks with the sections in it expanded, and whether some blocks were replaced. -/
def expandBlocks (c : Context) (nested : Bool) :
    List Keyed → Cached PendingImage (List Node × Bool)
  | [] => pure ([], false)
  | n :: ns =>
    match n.head with
    | .table attributes _ false =>
      followedBy
        (do
          let rows ← under 0 (expandTable c nested n.inside)
          return ([.table attributes rows], false))
        (expandBlocks c nested ns)
    | .paragraph p false => do
      match firstOpener? (← read n) with
      | none => followedBy (pure ([n.forget], false)) (expandBlocks c nested ns)
      | some opener =>
        match ← closing? opener readBlock (n :: ns) with
        | none => do
          lift (Merging.warn (.unclosedSection opener.argument))
          followedBy (pure ([n.forget], false)) (expandBlocks c nested ns)
        | some (0, _) =>
          followedBy
            (do
              let q ← lift (Merging.under 0 (Section.renderParagraph settings c nested p))
              if q.text ≠ p.text then invalidate
              return ([.paragraph q true], false))
            (expandBlocks c nested ns)
        | some (count + 1, closer) =>
          followedBy
            (do
              let records ← lift (Section.records settings opener c nested)
              let templates := captureBlocks opener closer n (ns.take count) ns[count]?
              let sets ← records.zipIdx.mapM fun (record, k) =>
                (forEach (fun template => expandCopy (c.forRow record k) k template.val)
                  templates.attach).shifted (k * templates.length)
              return (sets.flatten, true))
            (expandBlocks c nested (ns.drop (count + 1)))
    | _ => followedBy (pure ([n.forget], false)) (expandBlocks c nested ns)
  termination_by nodes => Keyed.sizes nodes
  decreasing_by
    · have := Keyed.size_eq n
      simp only [Keyed.sizes]
      omega
    · simp only [Keyed.sizes]; omega
    · simp only [Keyed.sizes]; omega
    · simp only [Keyed.sizes]; omega
    · simp only [Keyed.sizes]; omega
    · exact size_of_mem_captureBlocks template.property
    · have := Keyed.sizes_drop_le ns (count + 1)
      simp only [Keyed.sizes]
      omega
    · simp only [Keyed.sizes]; omega

/-- A block of a template, for a record. A table is expanded as it is for the first record, and as a
copy for the others. -/
def expandCopy (c : Context) (k : Nat) (template : BlockTemplate × Keyed) :
    Cached PendingImage Node :=
  match template.1 with
  | .paragraph p snapshot => lift (Section.renderTemplate settings c k p snapshot)
  | .node _ => do
    let base ← if k = 0 then pure 0 else freshBase
    match (template.2.moved base).head with
    | .table attributes _ false => do
      let rows ← expandTable c true (template.2.moved base).inside
      lift (Section.finishTable settings c attributes rows)
    | _ => pure template.2.forget.markRendered
  termination_by template.2.size
  decreasing_by
    rw [← Keyed.size_moved base template.2, Keyed.size_eq (template.2.moved base)]
    omega

/-- The rows of a table with its sections expanded, and the sections in the cells of the other
rows. -/
def expandTable (c : Context) (nested : Bool) (rows : List Keyed) :
    Cached PendingImage (List Node) := do
  let (slots, changed) ← expandRows settings c nested Subtype.val rows.attach
  if changed then invalidate
  forEach (fun slot =>
    match slot with
    | .made row => pure row
    | .kept row => expandRow c nested row.val) slots
  termination_by Keyed.sizes rows
  decreasing_by exact Keyed.size_lt_of_mem row.property

/-- A row in no section, with the sections in its cells expanded. -/
def expandRow (c : Context) (nested : Bool) (n : Keyed) : Cached PendingImage Node :=
  match n.head with
  | .row attributes _ false => do
    let cells ← forEach (fun cell => expandCell c nested cell.val) n.inside.attach
    return .row attributes cells
  | _ => pure n.forget
  termination_by n.size
  decreasing_by
    have := Keyed.size_lt_of_mem cell.property
    rw [Keyed.size_eq n]
    omega

/-- A cell with the sections in it expanded. -/
def expandCell (c : Context) (nested : Bool) (n : Keyed) : Cached PendingImage Node :=
  match n.head with
  | .cell attributes _ rendered =>
    return .cell attributes (← settled (expandBlocks c nested n.inside)) rendered
  | _ => pure n.forget
  termination_by n.size
  decreasing_by
    rw [Keyed.size_eq n]
    omega

end

end Cached
end MailMerge
