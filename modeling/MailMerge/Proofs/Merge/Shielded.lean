import MailMerge.Proofs.Merge.Stages
import MailMerge.Proofs.Section.Shielded

/-!
# A merge with sections under false conditions

A condition that does not hold keeps a section from being bound in a paragraph, but not in a row of a
table. If a merge ends because a section has nothing to repeat over, then that is no section that
conditionals of its paragraph drop. A section that a row opens ends the merge if it has nothing to
repeat over, even under a condition that does not hold.

**`merge_shielded`**: both of this, for each block of a document that is in no section.
-/

namespace MailMerge.Document

open Merging (Fails Gives)
open Section (Span Shielded NoPlaceholderIn Symbol remaining renderSpan expandBlocks extent rowOpener?
  Within)

variable {settings : Settings} {c : Context} {d : Document}

/-- A block of a document that is left by the conditionals of whole nodes. No section that begins
before it reaches up to it. -/
structure Place (c : Context) (d : Document) where
  earlier : List Part
  name : Text
  nodes : List Node
  later : List Part
  before : List Node
  block : Node
  after : List Node
  parts : d.parts = earlier ++ ⟨name, nodes⟩ :: later
  resolved : (Conditional.resolveNodes c.resolve nodes : Merging PendingImage (List Node)).Gives
    (before ++ block :: after)
  apart : Within (block :: after) before

/-- What comes after the expansion of sections binds none. -/
theorem fails_expandBlocks_of_mergeNodes {nodes left : List Node} {label : Text} {lack : Lack}
    (hl : (Conditional.resolveNodes c.resolve nodes : Merging PendingImage (List Node)).Gives left)
    (h : (Part.mergeNodes settings c nodes).Fails (.missingSection label lack)) :
    (expandBlocks settings c false left).Fails (.missingSection label lack) := by
  rcases Merging.fails_bind_iff.1 h with h | ⟨left', hl', h⟩
  · exact absurd h (hl.not_fails _)
  obtain rfl := hl.unique hl'
  rcases Merging.fails_bind_iff.1 h with h | ⟨expanded, -, h⟩
  · exact h
  rcases Merging.fails_bind_iff.1 h with h | ⟨resolved, -, h⟩
  · obtain ⟨p, hp⟩ := Node.exists_fails_of_rewriteOpen .blocks 0 expanded h
    have hfails := Merging.fails_map_iff.1 hp
    exact absurd hfails (Conditional.not_fails_resolve _ _)
  rcases Merging.fails_bind_iff.1 h with h | ⟨filled, -, h⟩
  · obtain ⟨p, hp⟩ := Node.exists_fails_of_rewriteOpen .blocks 0 resolved h
    have hfails : (Field.substitute settings c true p.text).Fails (.missingSection label lack) := by
      simpa [Part.fillIn, Merging.here] using hp
    exact absurd hfails (Field.not_fails_substitute _ _)
  · exact absurd h (Merging.not_fails_pure _ _)

theorem merge_eq_error_iff {e : MergeError} :
    d.merge settings c = .error e ↔
      (d.parts.mapM (Part.merge settings c) : Merging PlacedImage (List Part)).Fails e := by
  constructor
  · exact merge_eq_error
  · intro h
    unfold Document.merge
    rw [show (d.parts.mapM (Part.merge settings c) : Merging PlacedImage (List Part)) =
      Except.error e from h]
    rfl

theorem fails_part_iff {p : Part} {e : MergeError} :
    (p.merge settings c).Fails e ↔ (Part.mergeNodes settings c p.nodes).Fails e := by
  unfold Part.merge
  simp

namespace Place

/-- Another part of the document ends with the error, or the blocks before or after this one. -/
def FailsElsewhere (settings : Settings) (x : Place c d) (e : MergeError) : Prop :=
  (∃ part ∈ x.earlier ++ x.later, (part.merge settings c).Fails e) ∨
    (expandBlocks settings c false x.before).Fails e ∨
      (expandBlocks settings c false x.after).Fails e

/-- Nothing before the block ends the merge. -/
def Reached (settings : Settings) (x : Place c d) : Prop :=
  (∀ part ∈ x.earlier, ∃ merged, (part.merge settings c).Gives merged) ∧
    ∃ expanded, (expandBlocks settings c false x.before).Gives expanded

variable {label : Text} {lack : Lack} (x : Place c d)

/-- If the document lacks records, they are lacking in its paragraph or elsewhere. -/
theorem fails_of_merge (h : d.merge settings c = .error (.missingSection label lack)) :
    x.FailsElsewhere settings (.missingSection label lack) ∨
      (expandBlocks settings c false (x.block :: x.after)).Fails (.missingSection label lack) := by
  obtain ⟨before, part, after, hd, -, hpart⟩ := Merging.fails_mapM_iff.1 (merge_eq_error_iff.1 h)
  have hmem : part ∈ x.earlier ++ ⟨x.name, x.nodes⟩ :: x.later := by
    rw [← x.parts, hd]
    simp
  by_cases hother : part ∈ x.earlier ++ x.later
  · exact .inl (.inl ⟨part, hother, hpart⟩)
  obtain rfl : part = ⟨x.name, x.nodes⟩ := by
    simp only [List.mem_append, List.mem_cons, not_or] at hmem hother
    rcases hmem with hm | hm | hm
    · exact absurd hm hother.1
    · exact hm
    · exact absurd hm hother.2
  have hblocks := fails_expandBlocks_of_mergeNodes x.resolved (fails_part_iff.1 hpart)
  rw [Section.expandBlocks_append x.apart] at hblocks
  rcases Merging.fails_followedBy_iff.1 hblocks with hb | ⟨-, hb⟩
  · exact .inl (.inr (.inl hb))
  · exact .inr hb

/-- If the block ends with an error, so does the document, unless another error comes first. -/
theorem merge_of_fails {e : MergeError} (hx : x.Reached settings)
    (h : (expandBlocks settings c false (x.block :: x.after)).Fails e) :
    d.merge settings c = .error e := by
  rw [merge_eq_error_iff, Merging.fails_mapM_iff]
  refine ⟨x.earlier, ⟨x.name, x.nodes⟩, x.later, x.parts, hx.1, fails_part_iff.2 ?_⟩
  have hblocks : (expandBlocks settings c false (x.before ++ x.block :: x.after)).Fails e := by
    rw [Section.expandBlocks_append x.apart]
    exact Merging.fails_followedBy_iff.2 (.inr ⟨hx.2, h⟩)
  exact Merging.fails_bind_iff.2 (.inr ⟨_, x.resolved, Merging.fails_bind_iff.2 (.inl hblocks)⟩)

end Place

/-- **A false condition keeps a section of a paragraph from being bound, but not one of a row.** If a
merge lacks records, they are lacking elsewhere, or for a section of the paragraph that is left. But
a section that a row opens, under whatever condition, ends the merge if it lacks records. -/
theorem merge_shielded (settings : Settings) (x : Place c d) :
    (∀ p s index, x.block = .paragraph p → extent (x.block :: x.after) = 0 →
      Span.placeholderStart ∉ p.text → NoPlaceholderIn settings c p.text →
      Shielded c.resolve p.text s index →
      .span s index ∉ remaining c.resolve p.text ∧
      ∀ label lack, d.merge settings c = .error (.missingSection label lack) →
        x.FailsElsewhere settings (.missingSection label lack) ∨
        ∃ s' index', .span s' index' ∈ remaining c.resolve p.text ∧
          (renderSpan settings c false s').Fails (.missingSection label lack)) ∧
    (∀ attributes above row below opener label lack,
      x.block = .table attributes (above ++ row :: below) →
      (∀ r ∈ above, rowOpener? r = none) → rowOpener? row = some opener →
      (Section.bind opener c false : Merging PendingImage (List Value)).Fails
        (.missingSection label lack) →
      x.Reached settings → d.merge settings c = .error (.missingSection label lack)) := by
  constructor
  · intro p s index hblock hextent ht hv hs
    refine ⟨Section.not_mem_remaining hs, fun label lack h => ?_⟩
    rcases x.fails_of_merge h with helse | hf
    · exact .inl helse
    rw [hblock] at hf hextent
    rcases Section.exists_fails_of_expandBlocks hextent ht hv hf with hspan | hafter
    · exact .inr hspan
    · exact .inl (.inr (.inr hafter))
  · intro attributes above row below opener label lack hblock ha ho hbind hx
    refine x.merge_of_fails hx ?_
    have hrecords : (Section.records settings opener c false : Merging PendingImage _).Fails
        (.missingSection label lack) :=
      Merging.fails_bind_iff.2 (.inl hbind)
    have htable : (Section.expandTable settings c false (above ++ row :: below)).Fails _ :=
      Section.fails_expandTable ha ho hrecords
    rw [hblock, expandBlocks, Merging.fails_followedBy_iff]
    refine .inl (Merging.fails_bind_iff.2 (.inl ?_))
    exact Merging.fails_under_iff.2 htable

/-- Items under the condition that there are any. -/
def guardedList : Text :=
  Marker.enclose "IF Items" ++ Marker.enclose "#Items" ++ Marker.enclose "Name"
    ++ Marker.enclose "/Items" ++ Marker.enclose "/IF"

/-- The list in a paragraph. -/
def listInParagraph : Document where
  parts := [⟨"body", [Node.ofText guardedList]⟩]

/-- The list in a table. -/
def listInTable : Document where
  parts := [⟨"body", [.table [] [.row [] [.cell [] [Node.ofText guardedList]]]]⟩]

/-- The only paragraph. -/
def paragraphPlace : Place {} listInParagraph where
  earlier := []
  name := "body"
  nodes := [Node.ofText guardedList]
  later := []
  before := []
  block := Node.ofText guardedList
  after := []
  parts := rfl
  resolved := ⟨_, by with_unfolding_all rfl⟩
  apart := by rw [Within]; trivial

/-- The only table. -/
def tablePlace : Place {} listInTable where
  earlier := []
  name := "body"
  nodes := [.table [] [.row [] [.cell [] [Node.ofText guardedList]]]]
  later := []
  before := []
  block := .table [] [.row [] [.cell [] [Node.ofText guardedList]]]
  after := []
  parts := rfl
  resolved := ⟨_, by with_unfolding_all rfl⟩
  apart := by rw [Within]; trivial

/-- The markers around a section that is all there is, if their condition does not hold. -/
def dropped? (fields : Condition.Fields) : List (Nesting.Piece Symbol) → Option (Symbol × Span × Symbol)
  | [.pair opener [.item (.span s 0)] closer] =>
    if opener.holds fields then none else some (opener, s, closer)
  | _ => none

theorem eq_of_dropped? {fields : Condition.Fields} {ps : List (Nesting.Piece Symbol)}
    {opener closer : Symbol} {s : Span} (h : dropped? fields ps = some (opener, s, closer)) :
    ps = [.pair opener [.item (.span s 0)] closer] ∧ opener.holds fields = false := by
  unfold dropped? at h
  split at h
  · split at h
    · cases h
    · next hholds =>
      cases h
      exact ⟨rfl, by simpa using hholds⟩
  · cases h

theorem symbolPieces_guardedList : ∃ opener s closer,
    Section.symbolPieces guardedList = [.pair opener [.item (.span s 0)] closer] ∧
      Symbol.holds ({} : Context).resolve opener = false := by
  have hdropped : (dropped? ({} : Context).resolve (Section.symbolPieces guardedList)).isSome = true := by
    decide +kernel
  obtain ⟨⟨opener, s, closer⟩, h⟩ := Option.isSome_iff_exists.1 hdropped
  exact ⟨opener, s, closer, eq_of_dropped? h⟩

/-- Without items, the list is nothing in a paragraph, but lacks them in a table. -/
theorem merge_guardedList :
    (∀ label lack, listInParagraph.merge {} {} ≠ .error (.missingSection label lack)) ∧
    listInTable.merge {} {} = .error (.missingSection "Items" (.noData false)) := by
  obtain ⟨opener, s, closer, hp, ho⟩ := symbolPieces_guardedList
  have hnone : remaining ({} : Context).resolve guardedList = [] := by
    rw [remaining, hp]
    simp [Nesting.chosen, Nesting.branches, Nesting.branchesFrom, Symbol.role, ho]
  have hempty : ∀ e, ¬ (expandBlocks {} {} false []).Fails e := by
    intro e h
    rw [expandBlocks] at h
    exact Merging.not_fails_pure _ _ h
  constructor
  · have hshielded : Shielded ({} : Context).resolve guardedList s 0 := by
      have hundivided : ∀ p ∈ [Nesting.Piece.item (Symbol.span s 0)],
          ¬ Nesting.divides Symbol.role p := by
        intro p hm
        obtain rfl := List.mem_singleton.1 hm
        intro h
        cases h
      have hmem : Symbol.span s 0 ∈ Nesting.flatten [Nesting.Piece.item (Symbol.span s 0)] := by simp
      have hhidden := @Nesting.Hidden.here _ _ _ _ opener closer _ [] [] ho hundivided hmem
      rwa [Shielded, hp]
    have hv : NoPlaceholderIn {} {} guardedList := by
      intro inner hi
      rw [hnone] at hi
      cases hi
    have htext : (Paragraph.ofText guardedList [] []).text = guardedList := Paragraph.text_ofText ..
    intro label lack h
    obtain ⟨-, hmissing⟩ := (merge_shielded {} paragraphPlace).1 (Paragraph.ofText guardedList [] [])
      s 0 rfl (by decide +kernel) (by decide +kernel) (by rwa [htext]) (by rwa [htext])
    rcases hmissing label lack h with (⟨part, hm, -⟩ | hb | ha) | ⟨s', index', hs', -⟩
    · cases hm
    · exact hempty _ hb
    · exact hempty _ ha
    · rw [htext, hnone] at hs'
      cases hs'
  · have hopener : rowOpener? (.row [] [.cell [] [Node.ofText guardedList]]) =
        some (Marker.ofInner "#Items".toList 12) := by
      decide +kernel
    have hbefore : (expandBlocks {} {} false tablePlace.before).Gives [] := by
      show (expandBlocks {} {} false []).Gives []
      rw [expandBlocks, Merging.gives_pure_iff]
    exact (merge_shielded {} tablePlace).2 [] [] _ [] _ "Items" (.noData false) rfl (by simp) hopener
      rfl ⟨fun _ hm => (List.not_mem_nil hm).elim, [], hbefore⟩

end MailMerge.Document
