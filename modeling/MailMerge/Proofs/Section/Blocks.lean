import MailMerge.Proofs.Section.Rows

/-!
# Repeated blocks in two contexts

The walk over blocks, tables, rows and cells that expands sections makes trees that are alike of the
same template, in contexts in lockstep. What it leaves open is the same template in both.

**`agree_expandBlocks`**: blocks are expanded to blocks that are alike.
-/

namespace MailMerge.Section

open Merging (Agree)
open Node (Alike Done Level)

variable {D : Dialect} {F : Filling} {N : Finish D F} {settings : Settings} {c c' : Context}

/-! ## Capturing blocks -/

/-- What is captured of a block is a template. -/
def TemplateRaw (D : Dialect) (N : Finish D F) : BlockTemplate → Prop
  | .paragraph _ s => D.Template s.text
  | .node n => n.isParagraph = false ∧ Raw D N .blocks n

theorem templateRaw_captureBlock {n : Node} (h : Raw D N .blocks n) :
    TemplateRaw D N (captureBlock n) := by
  cases n with
  | paragraph p rendered => exact h.2
  | _ => exact ⟨rfl, h⟩

theorem templateRaw_captureBoundary {strip : Text → Text}
    (hstrip : ∀ t, D.Template t → D.Template (strip t)) {n : Node} (h : Raw D N .blocks n) :
    ∀ b ∈ captureBoundary strip n, TemplateRaw D N b := by
  intro b hb
  cases n with
  | paragraph p rendered =>
    unfold captureBoundary at hb
    dsimp only at hb
    split at hb
    · cases hb
    · obtain rfl := Option.some.inj hb
      exact hstrip p.text h.2
  | _ =>
    obtain rfl := Option.some.inj hb
    exact ⟨rfl, h⟩

/-- **The blocks of a section are captured as templates.** -/
theorem templateRaw_captureBlocks {opener closer : Marker} {first : Node} {between : List Node}
    {last : Option Node} (ho : Opens D opener)
    (hc : ∃ inner, Text.FreeOf Marker.closing inner ∧ closer.text = Marker.enclose inner)
    (hf : Raw D N .blocks first) (hb : ∀ n ∈ between, Raw D N .blocks n)
    (hl : ∀ n ∈ last, Raw D N .blocks n) :
    ∀ b ∈ captureBlocks opener closer first between last, TemplateRaw D N b := by
  obtain ⟨inner, -, hfree, -, he⟩ := ho
  obtain ⟨inner', hfree', he'⟩ := hc
  have htext : opener.text = Marker.enclose inner := by
    rw [he]
    rfl
  intro b hm
  unfold captureBlocks at hm
  rw [htext, he', List.mem_append, List.mem_append] at hm
  rcases hm with (hm | hm) | hm
  · exact templateRaw_captureBoundary (fun t ht => Dialect.template_withoutFirst ht hfree) hf b
      (Option.mem_toList.1 hm)
  · obtain ⟨n, hn, rfl⟩ := List.mem_map.1 hm
    exact templateRaw_captureBlock (hb n hn)
  · obtain ⟨n, hn, hbn⟩ := Option.bind_eq_some_iff.1 (Option.mem_toList.1 hm)
    exact templateRaw_captureBoundary (fun t ht => Dialect.template_withoutLast ht hfree') (hl n hn) b
      hbn

/-! ## Single blocks -/

theorem agree_renderText (N : Finish D F) (L : Lockstep settings D F) (hs : L.scopes c c')
    (nested : Bool) {t : Text} (ht : D.Template t) :
    Agree N.done (render settings c nested t) (render settings c' nested t) :=
  (agree_render L hs nested ht).mono fun _ _ => N.whole

theorem agree_renderParagraph (N : Finish D F) (L : Lockstep settings D F) (hs : L.scopes c c')
    (nested : Bool) {p q : Paragraph} (h : Open D p q) :
    Agree (Done N.done) (renderParagraph settings c nested p) (renderParagraph settings c' nested q) := by
  obtain ⟨rfl, ht⟩ := h
  refine Agree.here ((agree_renderText N L hs nested ht).bind fun l r hlr => Merging.agree_pure ?_)
  exact Node.done_setText p hlr

theorem agree_renderTemplate (L : Lockstep settings D F) (hs : L.scopes c c') (k : Nat)
    (p : Paragraph) {s : ParagraphSnapshot} (ht : D.Template s.text) :
    Agree (Alike (Open D) (Done N.done) false .blocks) (renderTemplate settings c k p s)
      (renderTemplate settings c' k p s) := by
  unfold renderTemplate
  refine Agree.bind (R := Done N.done) (Agree.here ?_) fun p' q' h =>
    Merging.agree_pure (Node.alike_paragraph.2 h)
  refine (agree_renderText N L hs true ht).bind fun l r hlr => Merging.agree_pure ?_
  split
  · exact Node.done_setText p hlr
  · exact Node.done_ofText s.attributes s.runStyle hlr

theorem agree_finishTable (L : Lockstep settings D F) (hs : L.scopes c c') (attributes : Text)
    {rows rows' : List Node}
    (h : List.Forall₂ (Alike (Open D) (Done N.done) false .rows) rows rows') :
    Agree (Alike (Open D) (Done N.done) false .blocks) (finishTable settings c attributes rows)
      (finishTable settings c' attributes rows') := by
  refine (Node.agree_rewriteOpen (fun p q hpq => agree_renderParagraph N L hs true hpq) .rows 0 0 rows
    rows' (Node.allAlike_iff.2 h)).bind fun rs rs' hrs => Merging.agree_pure ?_
  rw [Node.alike_table, List.forall₂_map_left_iff, List.forall₂_map_right_iff]
  exact hrs.imp fun r r' hr => hr.close.markRendered (by decide)

theorem standsIn_of_blockSection? {opener closer : Marker} {nodes : List Node} {i : Nat}
    (hr : ∀ n ∈ nodes, Raw D N .blocks n) (h : blockSection? opener nodes = some (i, closer)) :
    ∃ inner, Text.FreeOf Marker.closing inner ∧ closer.text = Marker.enclose inner := by
  refine StandsIn.exists_text (D := D) (standsIn_of_closingText? h) fun t ht => ?_
  obtain ⟨n, hn, rfl⟩ := List.mem_map.1 ht
  cases n with
  | paragraph p rendered => exact (hr _ hn).2
  | _ => exact Dialect.template_nil

/-- The blocks of a section that begins in a paragraph are captured as templates, and those behind it are
left as they are. -/
theorem raw_of_blockSection? {p : Paragraph} {ns : List Node} {opener closer : Marker} {count : Nat}
    (hp : D.Template p.text) (hns : AllRaw D N .blocks ns) (ho : firstOpener? p.text = some opener)
    (hc : blockSection? opener (.paragraph p :: ns) = some (count + 1, closer)) :
    (∀ template ∈ captureBlocks opener closer (.paragraph p) (ns.take count) ns[count]?,
      TemplateRaw D N template) ∧ AllRaw D N .blocks (ns.drop (count + 1)) := by
  have hraw : ∀ n ∈ Node.paragraph p false :: ns, Raw D N .blocks n := allRaw_iff.1 ⟨⟨rfl, hp⟩, hns⟩
  refine ⟨templateRaw_captureBlocks (opens_of_firstOpener? hp ho) (standsIn_of_blockSection? hraw hc)
    ⟨rfl, hp⟩ (fun n hn => ?_) fun n hn => ?_, allRaw_iff.2 fun n hn => ?_⟩
  · exact hraw n (List.mem_cons_of_mem _ (List.mem_of_mem_take hn))
  · exact hraw n (List.mem_cons_of_mem _ (List.mem_of_getElem? hn))
  · exact allRaw_iff.1 hns n (List.mem_of_mem_drop hn)

/-! ## All blocks -/

mutual

/-- **Blocks are expanded to blocks that are alike.** -/
theorem agree_expandBlocks (L : Lockstep settings D F) {c c' : Context} (hs : L.scopes c c')
    (nested : Bool) :
    ∀ nodes, AllRaw D N .blocks nodes →
      Agree (List.Forall₂ (Alike (Open D) (Done N.done) false .blocks))
        (expandBlocks settings c nested nodes) (expandBlocks settings c' nested nodes)
  | [], _ => by
    rw [expandBlocks, expandBlocks]
    exact Merging.agree_pure .nil
  | .table attributes rows rendered :: ns, ⟨⟨hrendered, hrows, hi⟩, hns⟩ => by
    subst hrendered
    rw [expandBlocks, expandBlocks]
    refine Agree.followedBy ?_ (agree_expandBlocks L hs nested ns hns)
    refine ((agree_expandTable L hs nested rows hrows hi).under 0 0).bind fun rs rs' h => ?_
    exact Merging.agree_pure (.cons (Node.alike_table.2 h) .nil)
  | .paragraph p rendered :: ns, ⟨⟨hrendered, hp⟩, hns⟩ => by
    subst hrendered
    have hself : Alike (Open D) (Done N.done) false .blocks (.paragraph p) (.paragraph p) :=
      Node.alike_paragraph.2 ⟨rfl, hp⟩
    rw [expandBlocks, expandBlocks]
    cases ho : firstOpener? p.text with
    | none =>
      exact Agree.followedBy (Merging.agree_pure (.cons hself .nil)) (agree_expandBlocks L hs nested ns hns)
    | some opener =>
      dsimp only
      have hopens := opens_of_firstOpener? hp ho
      cases hc : blockSection? opener (.paragraph p :: ns) with
      | none =>
        dsimp only
        refine (Merging.agree_report (R := fun _ _ => True) trivial _ _ _ _).bind fun _ _ _ => ?_
        exact Agree.followedBy (Merging.agree_pure (.cons hself .nil))
          (agree_expandBlocks L hs nested ns hns)
      | some q =>
        obtain ⟨count, closer⟩ := q
        cases count with
        | zero =>
          dsimp only
          refine Agree.followedBy ?_ (agree_expandBlocks L hs nested ns hns)
          refine ((agree_renderParagraph N L hs nested ⟨rfl, hp⟩).under 0 0).bind fun p' q' h => ?_
          exact Merging.agree_pure (.cons (Node.alike_paragraph.2 h) .nil)
        | succ count =>
          obtain ⟨htemplates, hdrop⟩ := raw_of_blockSection? hp hns ho hc
          dsimp only
          refine Agree.followedBy ?_ (agree_expandBlocks L hs nested (ns.drop (count + 1)) hdrop)
          refine (agree_records L hs hopens nested).bind fun rs rs' hrs => ?_
          refine Agree.bind
            (R := List.Forall₂ (List.Forall₂ (Alike (Open D) (Done N.done) false .blocks))) ?_
            fun sets sets' h => Merging.agree_pure (List.rel_flatten h)
          refine Agree.mapM (Merging.forall₂_zipIdx hrs 0) ?_
          rintro ⟨record, k⟩ ⟨record', k'⟩ ⟨hscope, hk⟩
          obtain rfl : k = k' := hk
          refine Agree.shifted (Agree.forEach (List.forall₂_same.2 fun template _ => rfl) ?_) _ _
          rintro template _ rfl
          exact agree_expandCopy L (hscope k) k template.val (htemplates template.val template.property)
  | .row attributes cells rendered :: ns, ⟨_, hns⟩ | .cell attributes children rendered :: ns, ⟨_, hns⟩
  | .pageBreak attributes :: ns, ⟨_, hns⟩ | .verbatim xml :: ns, ⟨_, hns⟩ => by
    rw [expandBlocks, expandBlocks]
    · exact Agree.followedBy (Merging.agree_pure (.cons rfl .nil)) (agree_expandBlocks L hs nested ns hns)
    all_goals simp
  termination_by nodes => sizeOf nodes
  decreasing_by
    · simp only [List.cons.sizeOf_spec, Node.table.sizeOf_spec]; omega
    · simp only [List.cons.sizeOf_spec]; omega
    · simp only [List.cons.sizeOf_spec]; omega
    · simp only [List.cons.sizeOf_spec]; omega
    · simp only [List.cons.sizeOf_spec]; omega
    · exact size_of_mem_captureBlocks template.property
    · have := sizeOf_drop_le (count + 1) ns
      simp only [List.cons.sizeOf_spec]
      omega
    all_goals
      simp only [List.cons.sizeOf_spec]
      omega

theorem agree_expandCopy (L : Lockstep settings D F) {c c' : Context} (hs : L.scopes c c')
    (k : Nat) : ∀ template, TemplateRaw D N template →
      Agree (Alike (Open D) (Done N.done) false .blocks) (expandCopy settings c k template)
        (expandCopy settings c' k template)
  | .paragraph p s, h => by
    rw [expandCopy, expandCopy]
    exact agree_renderTemplate L hs k p h
  | .node (.table attributes rows rendered), ⟨_, hrendered, hrows, hi⟩ => by
    subst hrendered
    rw [expandCopy, expandCopy]
    exact (agree_expandTable L hs true rows hrows hi).bind fun rs rs' h =>
      agree_finishTable L hs attributes h
  | .node (.paragraph p rendered), ⟨hp, _⟩ => by cases hp
  | .node (.row attributes cells rendered), _ | .node (.cell attributes children rendered), _
  | .node (.pageBreak attributes), _ | .node (.verbatim xml), _ => by
    rw [expandCopy, expandCopy]
    · exact Merging.agree_pure rfl
    all_goals simp
  termination_by template => template.size
  decreasing_by
    simp only [BlockTemplate.size, Node.table.sizeOf_spec]
    omega

theorem agree_expandTable (L : Lockstep settings D F) {c c' : Context} (hs : L.scopes c c')
    (nested : Bool) (rows : List Node) (hrows : AllRaw D N .rows rows)
    (hi : ∀ row ∈ repeatedRows rows, ∀ p ∈ innerParagraphs row, N.done p.text p.text) :
    Agree (List.Forall₂ (Alike (Open D) (Done N.done) false .rows))
      (expandTable settings c nested rows) (expandTable settings c' nested rows) := by
  have hraw : ∀ r ∈ rows, Raw D N .rows r := allRaw_iff.1 hrows
  rw [expandTable, expandTable]
  have hi' : ∀ row ∈ repeatedRows (rows.attach.map Subtype.val), ∀ p ∈ innerParagraphs row,
      N.done p.text p.text := by
    rwa [List.attach_map_subtype_val]
  refine (agree_expandRows L hs nested Subtype.val (fun r _ => hraw r.val r.property) hi').bind
    fun slots slots' h => ?_
  refine Agree.forEach h fun slot slot' hslot => ?_
  cases slot with
  | kept row =>
    cases slot' with
    | made row' => cases hslot
    | kept row' =>
      obtain rfl : row = row' := hslot
      exact agree_expandRow L hs nested row.val (hraw row.val row.property)
  | made row =>
    cases slot' with
    | kept row' => cases hslot
    | made row' => exact Merging.agree_pure hslot
  termination_by sizeOf rows
  decreasing_by exact List.sizeOf_lt_of_mem row.property

theorem agree_expandRow (L : Lockstep settings D F) {c c' : Context} (hs : L.scopes c c')
    (nested : Bool) : ∀ row, Raw D N .rows row →
      Agree (Alike (Open D) (Done N.done) false .rows) (expandRow settings c nested row)
        (expandRow settings c' nested row)
  | .row attributes cells rendered, ⟨hrendered, _, hcells⟩ => by
    subst hrendered
    rw [expandRow, expandRow]
    refine Agree.bind (R := List.Forall₂ (Alike (Open D) (Done N.done) false .cells)) ?_
      fun cs cs' h => Merging.agree_pure (Node.alike_row.2 h)
    refine Agree.forEach (List.forall₂_same.2 fun cell _ => rfl) ?_
    rintro cell _ rfl
    exact agree_expandCell L hs nested cell.val (allRaw_iff.1 hcells cell.val cell.property)
  termination_by row => sizeOf row
  decreasing_by
    have := List.sizeOf_lt_of_mem cell.property
    simp only [Node.row.sizeOf_spec]
    omega

theorem agree_expandCell (L : Lockstep settings D F) {c c' : Context} (hs : L.scopes c c')
    (nested : Bool) : ∀ cell, Raw D N .cells cell →
      Agree (Alike (Open D) (Done N.done) false .cells) (expandCell settings c nested cell)
        (expandCell settings c' nested cell)
  | .cell attributes children rendered, ⟨_, _, hch⟩ => by
    rw [expandCell, expandCell]
    exact (agree_expandBlocks L hs nested children hch).bind fun cs cs' h =>
      Merging.agree_pure (Node.alike_cell.2 h)
  termination_by cell => sizeOf cell

end

end MailMerge.Section
