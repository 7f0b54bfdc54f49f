import MailMerge.Merge.Basic
import MailMerge.Proofs.Section.Blocks

/-!
# A merge in two contexts

Once the conditionals of whole nodes are resolved alike, the stages that are left work on trees that
are alike: sections are expanded, and after that the open paragraphs are still the same template, so
conditionals and fields are resolved in them as in a section.

**`agree_mergeNodes`**: the nodes of a part are merged to nodes that are alike up to page breaks.

**`agree_mergeParts`**: so are all parts of a document.
-/

namespace MailMerge

open Merging (Agree)
open Node (Alike Done)
open Section (Dialect Filling Finish Lockstep AllRaw Open)

/-! ## Open paragraphs -/

section Paragraphs

variable {D : Dialect} {F : Filling} {settings : Settings} {c c' : Context} {p q : Paragraph}

/-- The conditionals of a template leave a template. -/
theorem agree_resolveParagraph (L : Lockstep settings D F) (hs : L.scopes c c') (h : Open D p q) :
    Agree (Open D) (Conditional.resolveParagraph (ι := PendingImage) settings c.resolve p)
      (Conditional.resolveParagraph (ι := PendingImage) settings c'.resolve q) := by
  obtain ⟨rfl, ht⟩ := h
  have hcongr := Conditional.resolve_congr (ι := PendingImage) settings
    fun inner hm => L.condition hs (ht.admits hm)
  unfold Conditional.resolveParagraph
  rw [← hcongr]
  refine Agree.bind (R := fun l r => l = r ∧ D.Template l) ?_ ?_
  · refine Merging.agree_self fun t log h => ⟨rfl, ?_⟩
    exact Conditional.tokens_of_resolve Dialect.divisible_fits ht h
  · rintro t _ ⟨rfl, ht'⟩
    refine Merging.agree_pure ⟨rfl, ?_⟩
    rwa [Paragraph.text_setText]

theorem agree_fillIn (N : Finish D F) (L : Lockstep settings D F) (hs : L.scopes c c')
    (h : Open D p q) : Agree (Done N.done) (Part.fillIn settings c p) (Part.fillIn settings c' q) := by
  obtain ⟨rfl, ht⟩ := h
  refine Agree.here ((Section.agree_substitute L hs ht).bind fun l r hw => Merging.agree_pure ?_)
  exact Node.done_setText p (N.whole hw)

end Paragraphs

/-! ## Parts -/

namespace Part

/-- The nodes are alike up to page breaks: they come of nodes with related paragraphs. -/
def Broken (K : Text → Text → Prop) (ns ms : List Node) : Prop :=
  ∃ us vs, ns = Node.breakPages .blocks us ∧ ms = Node.breakPages .blocks vs ∧
    List.Forall₂ (Alike (Done K) (Done K) false .blocks) us vs

section Nodes

variable {D : Dialect} {F : Filling} {settings : Settings} {c c' : Context}

/-- **A part is merged stage by stage**: conditionals of whole nodes, sections, conditionals in what is still open,
its fields, and page breaks. -/
theorem gives_merge_iff {part merged : Part} :
    (part.merge settings c).Gives merged ↔ ∃ resolved expanded decided filled,
      (Conditional.resolveNodes c.resolve part.nodes : Merging PendingImage (List Node)).Gives resolved ∧
      (Section.expandBlocks settings c false resolved).Gives expanded ∧
      (Node.rewriteOpen (Conditional.resolveParagraph settings c.resolve) .blocks 0 expanded).Gives decided ∧
      (Node.rewriteOpen (fillIn settings c) .blocks 0 decided).Gives filled ∧
      merged = { part with nodes := Node.breakPages .blocks filled } := by
  unfold Part.merge mergeNodes
  simp only [Merging.gives_bind_iff, Merging.gives_pure_iff, Merging.gives_mapImages_iff]
  constructor
  · rintro ⟨_, ⟨resolved, h₁, expanded, h₂, decided, h₃, filled, h₄, rfl⟩, rfl⟩
    exact ⟨resolved, expanded, decided, filled, h₁, h₂, h₃, h₄, rfl⟩
  · rintro ⟨resolved, expanded, decided, filled, h₁, h₂, h₃, h₄, rfl⟩
    exact ⟨_, ⟨resolved, h₁, expanded, h₂, decided, h₃, filled, h₄, rfl⟩, rfl⟩

/-- The conditionals of whole nodes leave the same template in both contexts. -/
def LeavesRaw (D : Dialect) (N : Finish D F) (c c' : Context) (nodes : List Node) : Prop :=
  Agree (fun l r => l = r ∧ AllRaw D N .blocks l)
    (Conditional.resolveNodes (ι := PendingImage) c.resolve nodes)
    (Conditional.resolveNodes (ι := PendingImage) c'.resolve nodes)

/-- **The nodes of a part are merged to nodes that are alike up to page breaks.** -/
theorem agree_mergeNodes (N : Finish D F) (L : Lockstep settings D F) (hs : L.scopes c c')
    {nodes : List Node} (h : LeavesRaw D N c c' nodes) :
    Agree (Broken N.done) (mergeNodes settings c nodes) (mergeNodes settings c' nodes) := by
  unfold mergeNodes
  refine Agree.bind h ?_
  rintro left _ ⟨rfl, hraw⟩
  refine (Section.agree_expandBlocks L hs false left hraw).bind fun expanded expanded' he => ?_
  refine (Node.agree_rewriteOpen (fun p q hpq => agree_resolveParagraph L hs hpq) .blocks 0 0
    expanded expanded' (Node.allAlike_iff.2 he)).bind fun resolved resolved' hr => ?_
  refine (Node.agree_rewriteOpen (fun p q hpq => agree_fillIn N L hs hpq) .blocks 0 0
    resolved resolved' (Node.allAlike_iff.2 hr)).bind fun filled filled' hf => ?_
  exact Merging.agree_pure ⟨filled, filled', rfl, rfl, hf⟩

/-- The parts have the same name, and nodes that are alike up to page breaks. -/
def Alike (K : Text → Text → Prop) (p q : Part) : Prop :=
  p.name = q.name ∧ Broken K p.nodes q.nodes

theorem agree_merge (N : Finish D F) (L : Lockstep settings D F) (hs : L.scopes c c') {p : Part}
    (h : LeavesRaw D N c c' p.nodes) :
    Agree (Part.Alike N.done) (p.merge settings c) (p.merge settings c') :=
  (agree_mergeNodes N L hs h).mapImages.bind fun _ _ hb => Merging.agree_pure ⟨rfl, hb⟩

end Nodes
end Part

/-! ## Documents -/

section Documents

variable {D : Dialect} {F : Filling} {settings : Settings} {c c' : Context} {d : Document}

/-- **The parts of a document are merged to parts that are alike.** -/
theorem agree_mergeParts (N : Finish D F) (L : Lockstep settings D F) (hs : L.scopes c c')
    (h : ∀ p ∈ d.parts, Part.LeavesRaw D N c c' p.nodes) :
    Agree (List.Forall₂ (Part.Alike N.done)) (d.parts.mapM (Part.merge settings c))
      (d.parts.mapM (Part.merge settings c')) := by
  have hsame : List.Forall₂ (fun p q => p = q ∧ p ∈ d.parts) d.parts d.parts :=
    List.forall₂_same.2 fun p hp => ⟨rfl, hp⟩
  refine Agree.mapM hsame ?_
  rintro p _ ⟨rfl, hp⟩
  exact Part.agree_merge N L hs (h p hp)

/-- A document is merged by merging its parts. Its images are theirs, and what they report comes before
what is reported of the images and of what is left over. -/
theorem exists_log_of_merge {m : Merged} (h : d.merge settings c = .ok m) :
    ∃ log, (d.parts.mapM (Part.merge settings c) : Merging PlacedImage (List Part)) =
      Except.ok (m.document.parts, log) ∧ m.images = log.images ∧
      m.warnings = log.warnings ++ PlacedImage.warnings settings log.images ++
        Leftover.warnings (m.document.leftovers false) := by
  unfold Document.merge at h
  cases hp : (d.parts.mapM (Part.merge settings c) : Merging PlacedImage (List Part)) with
  | error e =>
    rw [hp] at h
    cases h
  | ok r =>
    rw [hp] at h
    obtain rfl := Except.ok.inj h
    exact ⟨r.2, rfl, rfl, rfl⟩

theorem exists_images_of_merge {m : Merged} (h : d.merge settings c = .ok m) :
    ∃ log, (d.parts.mapM (Part.merge settings c) : Merging PlacedImage (List Part)) =
      Except.ok (m.document.parts, log) ∧ m.images = log.images :=
  (exists_log_of_merge h).imp fun _ hm => ⟨hm.1, hm.2.1⟩

theorem merge_eq_ok {m : Merged} (h : d.merge settings c = .ok m) :
    ∃ log, (d.parts.mapM (Part.merge settings c) : Merging PlacedImage (List Part)) =
      Except.ok (m.document.parts, log) :=
  (exists_images_of_merge h).imp fun _ hm => hm.1

theorem merge_eq_error {e : MergeError} (h : d.merge settings c = .error e) :
    (d.parts.mapM (Part.merge settings c) : Merging PlacedImage (List Part)) = Except.error e := by
  unfold Document.merge at h
  cases hp : (d.parts.mapM (Part.merge settings c) : Merging PlacedImage (List Part)) with
  | error e' =>
    rw [hp] at h
    exact congrArg Except.error (Except.error.inj h)
  | ok r =>
    rw [hp] at h
    cases h

end Documents
end MailMerge
