import MailMerge.Proofs.Section.Provenance
import MailMerge.Proofs.Section.Rows

/-!
# The walk over a template

The expansion of sections walks over blocks, tables, rows and cells. What it keeps of them is shown step by step:
a property of the nodes of a template is passed on to what is captured of them and to the nodes that are made.

The walk goes over a table in a repeated block twice: the sections in it are expanded first, and then what is
still open in it is rendered. What the first pass has made is closed, so the second one leaves it alone.

**`Keeps.expandBlocks`**: what each step keeps, the whole walk keeps.

**`provenance_expandBlocks`**: each paragraph of the expanded blocks was rendered at most once, and those
that are open were not rendered at all.
-/

namespace MailMerge.Section

open Merging (Gives gives_bind_iff gives_pure_iff gives_mapM_iff)
open Node (Level)

/-! ## Markers of sections -/

theorem isMarker_of_firstOpener? {t : Text} {m : Marker} (h : firstOpener? t = some m) :
    IsMarker .sectionStart m.text :=
  ⟨t, m, List.mem_of_find?_eq_some h, by simpa using List.find?_some h, rfl⟩

theorem closes_of_findCloser {opener closer : Marker} {depth d : Int} {ms : List Marker}
    (h : findCloser opener depth ms = (some closer, d)) : closer.closes opener := by
  induction ms generalizing depth with
  | nil => simp [findCloser] at h
  | cons m ms ih =>
    rw [findCloser] at h
    split at h
    · exact ih h
    · split at h
      · next hm =>
        split at h
        · obtain rfl := Option.some.inj (Prod.mk.inj h).1
          exact hm
        · exact ih h
      · exact ih h

theorem closes_of_findCloserIn {opener closer : Marker} {depth : Int} {lists : List (List Marker)}
    {i : Nat} (h : findCloserIn opener depth lists = some (i, closer)) : closer.closes opener := by
  induction lists generalizing depth i with
  | nil => cases h
  | cons ms rest ih =>
    rw [findCloserIn] at h
    split at h
    · next hc =>
      obtain ⟨-, rfl⟩ := Prod.mk.inj (Option.some.inj h)
      exact closes_of_findCloser hc
    · obtain ⟨⟨j, m⟩, hj, he⟩ := Option.map_eq_some_iff.1 h
      obtain ⟨-, rfl⟩ := Prod.mk.inj he
      exact ih hj

theorem isMarker_of_closingText? {opener closer : Marker} {texts : List Text} {i : Nat}
    (h : closingText? opener texts = some (i, closer)) : IsMarker .sectionEnd closer.text := by
  obtain ⟨t, -, hm⟩ := standsIn_of_closingText? h
  have hcloses : closer.closes opener := by
    cases texts with
    | nil => cases h
    | cons t ts => exact closes_of_findCloserIn h
  unfold Marker.closes at hcloses
  simp only [Bool.and_eq_true, beq_iff_eq] at hcloses
  exact ⟨t, closer, hm, hcloses.1.1, rfl⟩

theorem isMarker_of_mem_groups {rows rs : List Node} {opener : Marker} {closer : Option Marker}
    (h : .repeated opener closer rs ∈ groups rows) :
    IsMarker .sectionStart opener.text ∧ ∀ m ∈ closer, IsMarker .sectionEnd m.text := by
  have hopens : ∀ {r m}, rowOpener? r = some m → IsMarker .sectionStart m.text := by
    intro r m hm
    unfold rowOpener? at hm
    split at hm
    · cases hm
    · exact isMarker_of_firstOpener? hm
  fun_induction groups rows with
  | case1 => cases h
  | case2 r rows ho ih =>
    rcases List.mem_cons.1 h with h | h
    · cases h
    · exact ih h
  | case3 r rows m ho hc ih =>
    rcases List.mem_cons.1 h with h | h
    · cases h
      exact ⟨hopens ho, fun x hx => (Option.not_mem_none x hx).elim⟩
    · exact ih h
  | case4 r rows m ho count closer' hc ih =>
    rcases List.mem_cons.1 h with h | h
    · cases h
      refine ⟨hopens ho, fun x hx => ?_⟩
      obtain rfl := Option.some.inj hx
      exact isMarker_of_closingText? hc
    · exact ih h

/-! ## What a step keeps -/

/-- Each step of an expansion in the context makes of nodes with the first property nodes with the last one;
what is captured for the records of a section has the property in between. -/
structure Keeps (settings : Settings) (c : Context) (Before : Node → Prop) (Captured : BlockTemplate → Prop)
    (After : Level → Node → Prop) : Prop where
  inside : ∀ {n}, Before n → ∀ m ∈ n.children, Before m
  kept : ∀ {n} level, Before n → After level n
  table : ∀ {attributes rows made}, Before (.table attributes rows false) → (∀ row ∈ made, After .rows row) →
    After .blocks (.table attributes made false)
  row : ∀ {attributes cells made}, Before (.row attributes cells false) → (∀ cell ∈ made, After .cells cell) →
    After .rows (.row attributes made false)
  cell : ∀ {attributes nodes rendered made}, Before (.cell attributes nodes rendered) →
    (∀ n ∈ made, After .blocks n) → After .cells (.cell attributes made rendered)
  paragraph : ∀ {nested c' p q}, InScope c nested c' → Before (.paragraph p false) →
    (renderParagraph settings c' nested p).Gives q → After .blocks (.paragraph q true)
  rows : ∀ {nested c' opener closer rows made}, InScope c nested c' → IsMarker .sectionStart opener.text →
    (∀ m ∈ closer, IsMarker .sectionEnd m.text) → (∀ row ∈ rows, Before row) →
    (renderRows settings c' nested opener closer rows).Gives made → ∀ row ∈ made, After .rows row
  captures : ∀ {opener closer first between last}, IsMarker .sectionStart opener.text →
    IsMarker .sectionEnd closer.text → Before first → (∀ n ∈ between, Before n) → (∀ n ∈ last, Before n) →
    ∀ b ∈ captureBlocks opener closer first between last, Captured b
  captured : ∀ {n}, Captured (.node n) → Before n
  copy : ∀ {c' k p s n}, InScope c true c' → Captured (.paragraph p s) → (renderTemplate settings c' k p s).Gives n →
    After .blocks n
  finished : ∀ {c' attributes rows made n}, InScope c true c' → Before (.table attributes rows false) →
    (∀ row ∈ made, After .rows row) → (finishTable settings c' attributes made).Gives n → After .blocks n
  marked : ∀ {n}, Before n → After .blocks n.markRendered

/-! ## What the walk keeps -/

namespace Keeps

variable {settings : Settings} {c c' : Context} {Before : Node → Prop} {Captured : BlockTemplate → Prop}
  {After : Level → Node → Prop} {nested : Bool}

/-- A row that a section has made comes from the rows of the table. -/
theorem of_made (h : Keeps settings c Before Captured After) (hc : InScope c nested c') {rows : List Node}
    (hrows : ∀ row ∈ rows, Before row) {slots : List (Slot {row // row ∈ rows})}
    (hslots : (expandRows settings c' nested Subtype.val rows.attach).Gives slots) {row : Node}
    (hrow : .made row ∈ slots) : After .rows row := by
  obtain ⟨log, hslots⟩ := hslots
  obtain ⟨⟨parts, rfl, hparts⟩, -⟩ := expandRows_groups hslots
  rw [List.attach_map_subtype_val] at hparts
  obtain ⟨part, hpart, hmem⟩ := List.mem_flatten.1 hrow
  obtain ⟨g, hg, hgroup⟩ := Merging.exists_of_forall₂ hparts.flip hpart
  cases g with
  | single r =>
    obtain ⟨x, rfl, -⟩ := hgroup
    cases List.mem_singleton.1 hmem
  | repeated opener closer rs =>
    obtain ⟨made, rfl, hmade⟩ := hgroup
    obtain ⟨r, hr, he⟩ := List.mem_map.1 hmem
    obtain rfl := Slot.made.inj he
    obtain ⟨hopener, hcloser⟩ := isMarker_of_mem_groups hg
    refine h.rows hc hopener hcloser (fun r hr => hrows r ?_) hmade r hr
    rw [← flatMap_rows_groups rows]
    exact List.mem_flatMap.2 ⟨_, hg, hr⟩

theorem of_followedBy {x y : Merging PendingImage (List Node)} {level : Level}
    (hx : ∀ ns, x.Gives ns → ∀ n ∈ ns, After level n) (hy : ∀ ns, y.Gives ns → ∀ n ∈ ns, After level n) :
    ∀ ns, (x.followedBy y).Gives ns → ∀ n ∈ ns, After level n := by
  intro ns hns
  obtain ⟨first, second, hfirst, hsecond, rfl⟩ := Merging.gives_followedBy_iff.1 hns
  exact List.forall_mem_append.2 ⟨hx first hfirst, hy second hsecond⟩

theorem of_kept (h : Keeps settings c Before Captured After) {n : Node} (hn : Before n) {level : Level} :
    ∀ ns, (pure [n] : Merging PendingImage (List Node)).Gives ns → ∀ m ∈ ns, After level m := by
  intro ns hns
  obtain rfl := gives_pure_iff.1 hns
  exact List.forall_mem_singleton.2 (h.kept level hn)

mutual

/-- **What each step keeps, the whole walk keeps.** -/
theorem expandBlocks (h : Keeps settings c Before Captured After) {nested : Bool} {c' : Context}
    (hc : InScope c nested c') : ∀ nodes, (∀ n ∈ nodes, Before n) →
      ∀ ns, (Section.expandBlocks settings c' nested nodes).Gives ns → ∀ n ∈ ns, After .blocks n
  | [], _ => by
    intro ns hns
    rw [Section.expandBlocks] at hns
    obtain rfl := gives_pure_iff.1 hns
    exact List.forall_mem_nil _
  | .table attributes rows false :: ns, hnodes => by
    rw [List.forall_mem_cons] at hnodes
    rw [Section.expandBlocks]
    refine of_followedBy ?_ (expandBlocks h hc ns hnodes.2)
    intro made hmade
    obtain ⟨rows', hrows, he⟩ := gives_bind_iff.1 hmade
    obtain rfl := gives_pure_iff.1 he
    refine List.forall_mem_singleton.2 (h.table hnodes.1 ?_)
    exact expandTable h hc rows (h.inside hnodes.1) rows' (Merging.gives_under_iff.1 hrows)
  | .paragraph p false :: ns, hnodes => by
    have hp := hnodes _ List.mem_cons_self
    have hns := expandBlocks h hc ns fun n hn => hnodes n (List.mem_cons_of_mem _ hn)
    rw [Section.expandBlocks]
    cases ho : firstOpener? p.text with
    | none => exact of_followedBy (h.of_kept hp) hns
    | some opener =>
      dsimp only
      cases hs : blockSection? opener (.paragraph p :: ns) with
      | none =>
        intro made hmade
        obtain ⟨-, -, hmade⟩ := gives_bind_iff.1 hmade
        exact of_followedBy (h.of_kept hp) hns made hmade
      | some r =>
        obtain ⟨count, closer⟩ := r
        cases count with
        | zero =>
          refine of_followedBy ?_ hns
          intro made hmade
          obtain ⟨q, hq, he⟩ := gives_bind_iff.1 hmade
          obtain rfl := gives_pure_iff.1 he
          exact List.forall_mem_singleton.2 (h.paragraph hc hp (Merging.gives_under_iff.1 hq))
        | succ count =>
          dsimp only
          have hcaptured : ∀ b ∈ captureBlocks opener closer (.paragraph p) (ns.take count) ns[count]?, Captured b :=
            h.captures (isMarker_of_firstOpener? ho) (isMarker_of_closingText? hs) hp
              (fun n hn => hnodes n (List.mem_cons_of_mem _ (List.mem_of_mem_take hn)))
              (fun n hn => hnodes n (List.mem_cons_of_mem _ (List.mem_of_getElem? hn)))
          refine of_followedBy ?_ (expandBlocks h hc (ns.drop (count + 1))
            fun n hn => hnodes n (List.mem_cons_of_mem _ (List.mem_of_mem_drop hn)))
          intro made hmade n hn
          obtain ⟨records, -, hmade⟩ := gives_bind_iff.1 hmade
          obtain ⟨sets, hsets, he⟩ := gives_bind_iff.1 hmade
          obtain rfl := gives_pure_iff.1 he
          obtain ⟨set, hset, hmem⟩ := List.mem_flatten.1 hn
          obtain ⟨⟨record, k⟩, -, hgives⟩ :=
            Merging.exists_of_forall₂ (gives_mapM_iff.1 hsets).flip hset
          have hcopies := Merging.gives_forEach_iff.1 (Merging.gives_shifted_iff.1 hgives)
          obtain ⟨b, -, hb⟩ := Merging.exists_of_forall₂ hcopies.flip hmem
          exact expandCopy h (hc.record record k) k b.val (hcaptured b.val b.property) n hb
  | .paragraph p true :: ns, hnodes | .table attributes rows true :: ns, hnodes
  | .row attributes cells rendered :: ns, hnodes | .cell attributes children rendered :: ns, hnodes
  | .pageBreak attributes :: ns, hnodes | .verbatim xml :: ns, hnodes => by
    rw [List.forall_mem_cons] at hnodes
    rw [Section.expandBlocks]
    · exact of_followedBy (h.of_kept hnodes.1) (expandBlocks h hc ns hnodes.2)
    all_goals simp
  termination_by nodes => sizeOf nodes
  decreasing_by
    · simp only [List.cons.sizeOf_spec, Node.table.sizeOf_spec]; omega
    · simp only [List.cons.sizeOf_spec]; omega
    · simp only [List.cons.sizeOf_spec]; omega
    · exact size_of_mem_captureBlocks b.property
    · have := sizeOf_drop_le (count + 1) ns
      simp only [List.cons.sizeOf_spec]
      omega
    all_goals
      simp only [List.cons.sizeOf_spec]
      omega

theorem expandCopy (h : Keeps settings c Before Captured After) {c' : Context} (hc : InScope c true c') (k : Nat) :
    ∀ b, Captured b → ∀ n, (Section.expandCopy settings c' k b).Gives n → After .blocks n
  | .paragraph p s, hb, n, hn => by
    rw [Section.expandCopy] at hn
    exact h.copy hc hb hn
  | .node (.table attributes rows false), hb, n, hn => by
    rw [Section.expandCopy] at hn
    obtain ⟨rows', hrows, hn⟩ := gives_bind_iff.1 hn
    refine h.finished hc (h.captured hb) ?_ hn
    exact expandTable h hc rows (h.inside (h.captured hb)) rows' hrows
  | .node (.table attributes rows true), hb, n, hn | .node (.paragraph p rendered), hb, n, hn
  | .node (.row attributes cells rendered), hb, n, hn
  | .node (.cell attributes children rendered), hb, n, hn | .node (.pageBreak attributes), hb, n, hn
  | .node (.verbatim xml), hb, n, hn => by
    rw [Section.expandCopy] at hn
    · obtain rfl := gives_pure_iff.1 hn
      exact h.marked (h.captured hb)
    all_goals simp
  termination_by b => b.size
  decreasing_by
    simp only [BlockTemplate.size, Node.table.sizeOf_spec]
    omega

theorem expandTable (h : Keeps settings c Before Captured After) {nested : Bool} {c' : Context}
    (hc : InScope c nested c') (rows : List Node) (hrows : ∀ row ∈ rows, Before row) :
    ∀ made, (Section.expandTable settings c' nested rows).Gives made → ∀ row ∈ made, After .rows row := by
  intro made hmade row hrow
  rw [Section.expandTable] at hmade
  obtain ⟨slots, hslots, hmade⟩ := gives_bind_iff.1 hmade
  obtain ⟨slot, hslot, hgives⟩ :=
    Merging.exists_of_forall₂ (Merging.gives_forEach_iff.1 hmade).flip hrow
  cases slot with
  | kept r => exact expandRow h hc r.val (hrows r.val r.property) row hgives
  | made r =>
    obtain rfl := gives_pure_iff.1 hgives
    exact h.of_made hc hrows hslots hslot
  termination_by sizeOf rows
  decreasing_by exact List.sizeOf_lt_of_mem r.property

theorem expandRow (h : Keeps settings c Before Captured After) {nested : Bool} {c' : Context}
    (hc : InScope c nested c') : ∀ row, Before row →
      ∀ made, (Section.expandRow settings c' nested row).Gives made → After .rows made
  | .row attributes cells false, hrow, made, hmade => by
    rw [Section.expandRow] at hmade
    obtain ⟨cells', hcells, he⟩ := gives_bind_iff.1 hmade
    obtain rfl := gives_pure_iff.1 he
    refine h.row hrow fun cell' hcell' => ?_
    obtain ⟨cell, -, hgives⟩ :=
      Merging.exists_of_forall₂ (Merging.gives_forEach_iff.1 hcells).flip hcell'
    exact expandCell h hc cell.val (h.inside hrow cell.val cell.property) cell' hgives
  | .row attributes cells true, hrow, made, hmade | .paragraph p rendered, hrow, made, hmade
  | .table attributes rows rendered, hrow, made, hmade | .cell attributes children rendered, hrow, made, hmade
  | .pageBreak attributes, hrow, made, hmade | .verbatim xml, hrow, made, hmade => by
    rw [Section.expandRow] at hmade
    · obtain rfl := gives_pure_iff.1 hmade
      exact h.kept .rows hrow
    all_goals simp
  termination_by row => sizeOf row
  decreasing_by
    have := List.sizeOf_lt_of_mem cell.property
    simp only [Node.row.sizeOf_spec]
    omega

theorem expandCell (h : Keeps settings c Before Captured After) {nested : Bool} {c' : Context}
    (hc : InScope c nested c') : ∀ cell, Before cell →
      ∀ made, (Section.expandCell settings c' nested cell).Gives made → After .cells made
  | .cell attributes children rendered, hcell, made, hmade => by
    rw [Section.expandCell] at hmade
    obtain ⟨children', hchildren, he⟩ := gives_bind_iff.1 hmade
    obtain rfl := gives_pure_iff.1 he
    exact h.cell hcell (expandBlocks h hc children (h.inside hcell) children' hchildren)
  | .row attributes cells rendered, hcell, made, hmade | .paragraph p rendered, hcell, made, hmade
  | .table attributes rows rendered, hcell, made, hmade | .pageBreak attributes, hcell, made, hmade
  | .verbatim xml, hcell, made, hmade => by
    rw [Section.expandCell] at hmade
    · obtain rfl := gives_pure_iff.1 hmade
      exact h.kept .cells hcell
    all_goals simp
  termination_by cell => sizeOf cell

end

end Keeps

open Node (Every)

/-! ## Blocks of a section, rendered once -/

section Blocks

variable {settings : Settings} {c c' : Context} {template : List Node} {nested : Bool}

/-- What is captured of the block comes from the template. -/
def OfTemplate (template : List Node) : BlockTemplate → Prop
  | .paragraph p s => (∃ rendered, Occurs template (.paragraph p rendered)) ∧ Captured p.text s.text
  | .node n => Occurs template n

theorem ofTemplate_captureBlock {n : Node} (h : Occurs template n) :
    OfTemplate template (captureBlock n) := by
  cases n with
  | paragraph p rendered => exact ⟨⟨rendered, h⟩, captured_of_withoutOpener (.inl rfl)⟩
  | _ => exact h

theorem ofTemplate_captureBoundary {strip : Text → Text} (hstrip : ∀ t, Captured t (strip t)) {n : Node}
    (h : Occurs template n) : ∀ b ∈ captureBoundary strip n, OfTemplate template b := by
  intro b hb
  cases n with
  | paragraph p rendered =>
    unfold captureBoundary at hb
    dsimp only at hb
    split at hb
    · cases hb
    · obtain rfl := Option.some.inj hb
      exact ⟨⟨rendered, h⟩, hstrip p.text⟩
  | _ =>
    obtain rfl := Option.some.inj hb
    exact h

theorem ofTemplate_captureBlocks {opener closer : Marker} {first : Node} {between : List Node}
    {last : Option Node} (ho : IsMarker .sectionStart opener.text)
    (hc : IsMarker .sectionEnd closer.text) (hf : Occurs template first)
    (hb : ∀ n ∈ between, Occurs template n) (hl : ∀ n ∈ last, Occurs template n) :
    ∀ b ∈ captureBlocks opener closer first between last, OfTemplate template b := by
  intro b hm
  unfold captureBlocks at hm
  rw [List.mem_append, List.mem_append] at hm
  rcases hm with (hm | hm) | hm
  · exact ofTemplate_captureBoundary
      (fun t => captured_of_withoutOpener (.inr ⟨opener.text, ho, rfl⟩)) hf b (Option.mem_toList.1 hm)
  · obtain ⟨n, hn, rfl⟩ := List.mem_map.1 hm
    exact ofTemplate_captureBlock (hb n hn)
  · obtain ⟨n, hn, hbn⟩ := Option.bind_eq_some_iff.1 (Option.mem_toList.1 hm)
    exact ofTemplate_captureBoundary (fun t => ⟨t, .inl rfl, .inr ⟨closer.text, hc, rfl⟩⟩) (hl n hn) b
      hbn

/-! ## Single blocks, rendered once -/

/-- A paragraph of the template is rendered once. -/
theorem renderedOnce_renderParagraph (hc : InScope c nested c') {p q : Paragraph}
    (hp : Kept template p) (h : (renderParagraph settings c' nested p).Gives q) :
    RenderedOnce settings c template q := by
  obtain ⟨rendered, hoccurs⟩ := hp
  obtain ⟨t, ht, hq⟩ := gives_bind_iff.1 (Merging.gives_mapImages_iff.1 h)
  obtain rfl := gives_pure_iff.1 hq
  refine .paragraph hoccurs (captured_of_withoutOpener (.inl rfl)) hc ?_
  rwa [Paragraph.text_setText]

theorem every_renderTemplate (hc : InScope c true c') {k : Nat} {p : Paragraph} {s : ParagraphSnapshot}
    (hs : OfTemplate template (.paragraph p s)) {n : Node}
    (h : (renderTemplate settings c' k p s).Gives n) :
    Every (Provenance settings c template) false .blocks n := by
  obtain ⟨⟨rendered, hoccurs⟩, hcap⟩ := hs
  obtain ⟨q, hq, hn⟩ := gives_bind_iff.1 h
  obtain rfl := gives_pure_iff.1 hn
  obtain ⟨t, ht, he⟩ := gives_bind_iff.1 (Merging.gives_mapImages_iff.1 hq)
  have htext : q.text = t := by
    rw [← gives_pure_iff.1 he]
    split
    · exact Paragraph.text_setText p t
    · exact Paragraph.text_ofText t _ _
  rw [← htext] at ht
  exact Node.every_paragraph.2 (.inl (.paragraph hoccurs hcap hc ht))

/-- **The second pass over a table leaves alone what the first one has rendered.** -/
theorem every_finishTable (hc : InScope c true c') {attributes : Text} {rows : List Node}
    (hrows : ∀ row ∈ rows, Every (Provenance settings c template) false .rows row) {n : Node}
    (h : (finishTable settings c' attributes rows).Gives n) :
    Every (Provenance settings c template) false .blocks n := by
  obtain ⟨rows', hrows', hn⟩ := gives_bind_iff.1 h
  obtain rfl := gives_pure_iff.1 hn
  have honce : ∀ row ∈ rows', Every (fun _ => AtMostOnce settings c template) false .rows row :=
    Node.every_rewriteOpen (P := Provenance settings c template)
      (fun p q hp hq => .inl (renderedOnce_renderParagraph hc hp hq)) (fun p hp => hp) hrows' hrows
  refine Node.every_table.2 fun row hrow => ?_
  obtain ⟨row', hrow', rfl⟩ := List.mem_map.1 hrow
  exact ((honce row' hrow').markRendered (by decide) true).imp fun _ _ => provenance_of_closed

end Blocks

/-! ## The walk, rendering once -/

section Walk

variable {settings : Settings} {c c' : Context} {template : List Node} {nested : Bool}

/-- All paragraphs of the nodes that the step makes have their provenance in the template. -/
def Makes (settings : Settings) (c : Context) (template : List Node) (level : Level)
    (x : Merging PendingImage (List Node)) : Prop :=
  ∀ ns, x.Gives ns → ∀ n ∈ ns, Every (Provenance settings c template) false level n

/-- Each step keeps where the paragraphs come from. -/
theorem keeps_provenance :
    Keeps settings c (Occurs template) (OfTemplate template) (Every (Provenance settings c template) false) where
  inside h _ hm := h.inside hm
  kept _ h := every_provenance h
  table _ hrows := Node.every_table.2 hrows
  row _ hcells := Node.every_row.2 hcells
  cell _ hnodes := Node.every_cell.2 hnodes
  paragraph hc hp hq := Node.every_paragraph.2 (.inl (renderedOnce_renderParagraph hc ⟨false, hp⟩ hq))
  rows hc ho hcloser hrows hmade := every_renderRows hc ho hcloser hrows hmade
  captures := ofTemplate_captureBlocks
  captured h := h
  copy hc hs hn := every_renderTemplate hc hs hn
  finished hc _ hrows hn := every_finishTable hc hrows hn
  marked h := by
    have hcopied : Every (fun _ => AtMostOnce settings c template) false .blocks _ := every_atMostOnce h
    exact (hcopied.markRendered (by decide) false).imp fun _ _ => provenance_of_closed

/-- **Each paragraph of expanded blocks was rendered at most once.** -/
theorem makes_expandBlocks (hc : InScope c nested c') (nodes : List Node) (h : ∀ n ∈ nodes, Occurs template n) :
    Makes settings c template .blocks (expandBlocks settings c' nested nodes) :=
  keeps_provenance.expandBlocks hc nodes h

/-- **Where the paragraphs of expanded blocks come from**: an open one is a paragraph of the template,
and a closed one was rendered at most once. -/
theorem provenance_expandBlocks {expanded : List Node}
    (h : (expandBlocks settings c false template).Gives expanded) {path : Path} {p : Paragraph} {b : Bool}
    (hp : Node.standing? expanded path = some (p, b)) : Provenance settings c template b p := by
  cases path with
  | nil => cases hp
  | cons i path =>
    obtain ⟨n, hn, hp⟩ := Option.bind_eq_some_iff.1 hp
    exact makes_expandBlocks .outside template (fun n hn => .top hn) expanded h n
      (List.mem_of_getElem? hn) path p b hp

end Walk

end MailMerge.Section
