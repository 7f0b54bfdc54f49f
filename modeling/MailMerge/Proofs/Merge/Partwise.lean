import MailMerge.Proofs.Cache.Merge
import MailMerge.Proofs.Merge.Causes

/-!
# Parts are merged independently

All parts of a document go through one merge, with one cache and one log. Nothing of one part gets into
another one: a part becomes what it becomes in a document of its own, whatever the parts before it hold and
whatever the cache keeps of them.

**`Document.merge_partwise`**: a document is merged if each part of it is merged alone, to the merged parts and
with their images; otherwise the merge ends with the error of the first part that fails.

**`KeyedDocument.merge_partwise_cached`**: so it is with a cache that all parts share, and if images are taken
over after the merge of the whole document only.
-/

namespace MailMerge

open Merging (Fails Gives)

variable {settings : Settings} {c : Context}

/-! ## Steps for the items of a list -/

/-- Steps for the items of a list have the results and the images of the single steps, in order. -/
theorem Merging.exists_of_mapM_eq_ok {ι α β : Type} {f : α → Merging ι β} {xs : List α} {ys : List β}
    {log : Log ι} (h : xs.mapM f = Except.ok (ys, log)) :
    ∃ rs : List (β × Log ι), List.Forall₂ (fun x r => f x = Except.ok r) xs rs ∧ ys = rs.map (·.1) ∧
      log.images = rs.flatMap (·.2.images) := by
  induction xs generalizing ys log with
  | nil =>
    rw [List.mapM_nil] at h
    obtain ⟨rfl, rfl⟩ := Prod.mk.inj (Except.ok.inj h)
    exact ⟨[], .nil, rfl, rfl⟩
  | cons x xs ih =>
    rw [List.mapM_cons] at h
    obtain ⟨y, first, rest, hx, hrest, rfl⟩ := bind_eq_ok_iff.1 h
    obtain ⟨ys, second, last, hxs, hpure, rfl⟩ := bind_eq_ok_iff.1 hrest
    obtain ⟨rfl, rfl⟩ := Prod.mk.inj (Except.ok.inj hpure)
    obtain ⟨rs, hrs, rfl, himages⟩ := ih hxs
    refine ⟨(y, first) :: rs, .cons hx hrs, rfl, ?_⟩
    rw [List.flatMap_cons, ← himages, Log.append_empty]
    rfl

/-! ## The handler of images

Nothing before the images are handed over reads whether they are. The recursive functions are opened as fixed
points here: those of the two settings are the same function, step for step, so no induction is needed. -/

/-- The settings of a merge after which images are not taken over. -/
def Settings.withoutHandler (settings : Settings) : Settings :=
  { settings with handlesImages := false }

section

variable (settings : Settings)

theorem Conditional.resolve_withoutHandler {ι : Type} :
    @resolve ι settings.withoutHandler = resolve settings := rfl

theorem Field.substitute_withoutHandler : substitute settings.withoutHandler = substitute settings := by
  funext c withImages t
  unfold substitute
  obtain ⟨segments, tail⟩ := Marker.segments t
  dsimp only
  induction segments with
  | nil => rfl
  | cons s segments ih =>
    simp only [replaceSegments, ih]
    rfl

namespace Section

theorem render_withoutHandler : render settings.withoutHandler = render settings := by
  delta render render._unary
  simp only [Conditional.resolve_withoutHandler, Field.substitute_withoutHandler]
  rfl

theorem renderParagraph_withoutHandler :
    renderParagraph settings.withoutHandler = renderParagraph settings := by
  delta renderParagraph
  simp only [render_withoutHandler]

theorem expandRows_withoutHandler {α : Type} :
    expandRows (α := α) settings.withoutHandler = expandRows settings := by
  delta expandRows renderRows renderRow
  simp only [render_withoutHandler]
  rfl

theorem expandBlocks_withoutHandler : expandBlocks settings.withoutHandler = expandBlocks settings := by
  delta expandBlocks expandBlocks._mutual renderTemplate finishTable
  simp only [expandRows_withoutHandler, renderParagraph_withoutHandler, render_withoutHandler]
  rfl

end Section

theorem Part.merge_withoutHandler : Part.merge settings.withoutHandler = Part.merge settings := by
  delta Part.merge mergeNodes Conditional.resolveParagraph fillIn
  simp only [Section.expandBlocks_withoutHandler, Conditional.resolve_withoutHandler,
    Field.substitute_withoutHandler]

end

/-! ## Outcomes -/

/-- The outcome of merging parts together, seen from the outcomes of merging each of them alone. -/
structure MergesPartwise (singles : List (Except MergeError Merged)) (outcome : Except MergeError Merged) :
    Prop where
  /-- Together they are merged just if each one is. -/
  succeeds : (∃ m, outcome = .ok m) ↔ ∀ x ∈ singles, ∃ a, x = .ok a
  /-- The merged parts are those of the single documents, and so are the images, one part after another. -/
  merged : ∀ m, outcome = .ok m → ∃ as : List Merged, singles = as.map .ok ∧
    List.Forall₂ (fun a q => a.document.parts = [q]) as m.document.parts ∧ m.images = as.flatMap (·.images)
  /-- The error is that of the first part that fails. -/
  fails : ∀ e, outcome = .error e ↔ ∃ (as : List Merged) (later : List (Except MergeError Merged)),
    singles = as.map .ok ++ .error e :: later

namespace Merged

variable {x : Merging PlacedImage (List Part)} {e : MergeError}

theorem ofParts_eq_error_iff : ofParts settings x = .error e ↔ x.Fails e := by
  unfold ofParts Fails
  cases x with
  | error e' => exact ⟨fun h => congrArg _ (Except.error.inj h), fun h => congrArg _ (Except.error.inj h)⟩
  | ok r => exact ⟨nofun, nofun⟩

theorem exists_ofParts {parts : List Part} {log : Log PlacedImage} (h : x = Except.ok (parts, log)) :
    ∃ m, ofParts settings x = .ok m ∧ m.document.parts = parts ∧ m.images = log.images := by
  subst h
  exact ⟨_, rfl, rfl, rfl⟩

end Merged

/-! ## Documents of one part -/

namespace Part

/-- The document of one part. -/
def alone (p : Part) : Document where
  parts := [p]

/-- The outcome of merging the part as a document of its own. -/
def mergeAlone (settings : Settings) (c : Context) (p : Part) : Except MergeError Merged :=
  p.alone.merge settings.withoutHandler c

theorem mergeAlone_eq_ofParts (p : Part) : p.mergeAlone settings c =
    Merged.ofParts settings.withoutHandler (List.singleton <$> p.merge settings c) := by
  rw [mergeAlone, Document.merge_eq_ofParts, alone, List.mapM_cons, merge_withoutHandler]
  simp only [List.mapM_nil, bind_pure_comp]
  rfl

/-- A part by itself becomes what it becomes in a document. -/
theorem exists_mergeAlone {p q : Part} {log : Log PlacedImage} (h : p.merge settings c = Except.ok (q, log)) :
    ∃ a, p.mergeAlone settings c = .ok a ∧ a.document.parts = [q] ∧ a.images = log.images := by
  rw [mergeAlone_eq_ofParts]
  refine Merged.exists_ofParts ?_
  rw [h]
  exact congrArg (fun log => Except.ok ([q], log)) (Merging.Log.append_empty log)

theorem mergeAlone_eq_error_iff {p : Part} {e : MergeError} :
    p.mergeAlone settings c = .error e ↔ (p.merge settings c).Fails e := by
  rw [mergeAlone_eq_ofParts, Merged.ofParts_eq_error_iff, Merging.fails_map_iff]

/-- Parts that are merged are merged alone. -/
theorem exists_mergeAlone_all {ps : List Part} (h : ∀ p ∈ ps, ∃ q, (p.merge settings c).Gives q) :
    ∃ as : List Merged, ps.map (Part.mergeAlone settings c) = as.map .ok := by
  induction ps with
  | nil => exact ⟨[], rfl⟩
  | cons p ps ih =>
    rw [List.forall_mem_cons] at h
    obtain ⟨⟨q, log, hq⟩, hps⟩ := h
    obtain ⟨a, ha, -⟩ := exists_mergeAlone hq
    obtain ⟨as, has⟩ := ih hps
    exact ⟨a :: as, by rw [List.map_cons, List.map_cons, ha, has]⟩

end Part

/-! ## Documents -/

namespace Document

variable {d : Document}

/-- The outcomes of the parts of the document, each merged alone. -/
def singles (settings : Settings) (c : Context) (d : Document) : List (Except MergeError Merged) :=
  d.parts.map (Part.mergeAlone settings c)

theorem exists_singles_of_merge {m : Merged} (h : d.merge settings c = .ok m) :
    ∃ as : List Merged, d.singles settings c = as.map .ok ∧
      List.Forall₂ (fun a q => a.document.parts = [q]) as m.document.parts ∧
      m.images = as.flatMap (·.images) := by
  rw [merge_eq_ofParts] at h
  cases hx : (d.parts.mapM (Part.merge settings c) : Merging PlacedImage (List Part)) with
  | error e =>
    rw [hx] at h
    cases h
  | ok r =>
    obtain ⟨qs, log⟩ := r
    rw [hx] at h
    obtain rfl := Except.ok.inj h
    obtain ⟨rs, hrs, rfl, himages⟩ := Merging.exists_of_mapM_eq_ok hx
    dsimp only
    rw [himages, singles]
    clear hx himages h
    generalize d.parts = ps at hrs
    induction hrs with
    | nil => exact ⟨[], rfl, .nil, rfl⟩
    | cons hr _ ih =>
      obtain ⟨as, has, hparts, himages⟩ := ih
      obtain ⟨a, ha, hap, hai⟩ := Part.exists_mergeAlone hr
      refine ⟨a :: as, ?_, .cons hap hparts, ?_⟩
      · rw [List.map_cons, List.map_cons, ha, has]
      · rw [List.flatMap_cons, List.flatMap_cons, himages, hai]

theorem merge_eq_error_iff_singles {e : MergeError} :
    d.merge settings c = .error e ↔ ∃ (as : List Merged) (later : List (Except MergeError Merged)),
      d.singles settings c = as.map .ok ++ .error e :: later := by
  rw [merge_eq_ofParts, Merged.ofParts_eq_error_iff, Merging.fails_mapM_iff, singles]
  constructor
  · rintro ⟨before, p, after, hd, hbefore, hp⟩
    obtain ⟨as, has⟩ := Part.exists_mergeAlone_all hbefore
    refine ⟨as, after.map (Part.mergeAlone settings c), ?_⟩
    rw [hd, List.map_append, List.map_cons, has, Part.mergeAlone_eq_error_iff.2 hp]
  · rintro ⟨as, later, h⟩
    obtain ⟨before, rest, hd, hbefore, hrest⟩ := List.map_eq_append_iff.1 h
    obtain ⟨p, after, rfl, hp, -⟩ := List.map_eq_cons_iff.1 hrest
    refine ⟨before, p, after, hd, fun q hq => ?_, Part.mergeAlone_eq_error_iff.1 hp⟩
    cases hm : q.merge settings c with
    | ok r => exact ⟨r.1, r.2, rfl⟩
    | error e' =>
      have hmem : q.mergeAlone settings c ∈ as.map Except.ok := hbefore ▸ List.mem_map_of_mem hq
      obtain ⟨a, -, ha⟩ := List.mem_map.1 hmem
      rw [Part.mergeAlone_eq_error_iff.2 hm] at ha
      cases ha

/-- **A document is merged part by part.** -/
theorem merge_partwise (settings : Settings) (c : Context) (d : Document) :
    MergesPartwise (d.singles settings c) (d.merge settings c) where
  succeeds := by
    constructor
    · rintro ⟨m, hm⟩ x hx
      obtain ⟨as, has, -⟩ := exists_singles_of_merge hm
      rw [has] at hx
      obtain ⟨a, -, rfl⟩ := List.mem_map.1 hx
      exact ⟨a, rfl⟩
    · intro hall
      cases hm : d.merge settings c with
      | ok m => exact ⟨m, rfl⟩
      | error e =>
        obtain ⟨as, later, hs⟩ := merge_eq_error_iff_singles.1 hm
        obtain ⟨a, ha⟩ := hall (.error e) (hs ▸ List.mem_append_right _ List.mem_cons_self)
        cases ha
  merged _ := exists_singles_of_merge
  fails _ := merge_eq_error_iff_singles

end Document

/-! ## Documents with a cache -/

namespace KeyedDocument

/-- The outcomes of the parts of the document, each merged as a document of its own that has its own name and
its own cache, and without a handler of images. -/
def singles (settings : Settings) (c : Context) (start : KeyedPart → Text × TextCache) (d : KeyedDocument) :
    List (Except MergeError Merged) :=
  d.parts.map fun p => (merge settings.withoutHandler c (start p).1 (start p).2 { parts := [p] }).1

theorem singles_eq (settings : Settings) (c : Context) (start : KeyedPart → Text × TextCache)
    {d : KeyedDocument} (h : d.keys.Nodup) : d.singles settings c start = d.forget.singles settings c := by
  unfold singles Document.singles forget
  rw [List.map_map]
  refine List.map_congr_left fun p hp => ?_
  have hnodes : (KeyedDocument.mk [p]).nodes.Sublist d.nodes := by
    rw [nodes, List.flatMap_singleton]
    exact List.sublist_flatten_of_mem (List.mem_map_of_mem hp)
  have hkeys := (Keyed.keys_sublist (Keyed.allOf_sublist hnodes)).nodup h
  exact (merge_eq_merge_forget settings.withoutHandler c _ _ ⟨[p]⟩ hkeys).1

/-- **With a cache that all parts share, a document is merged part by part**, whatever the caches hold at the
start. -/
theorem merge_partwise_cached (settings : Settings) (c : Context) (name : Text) (cache : TextCache)
    (start : KeyedPart → Text × TextCache) (d : KeyedDocument) (h : d.keys.Nodup) :
    MergesPartwise (d.singles settings c start) (d.merge settings c name cache).1 := by
  rw [singles_eq settings c start h, (merge_eq_merge_forget settings c name cache d h).1]
  exact d.forget.merge_partwise settings c

/-- A letter whose header and body are merged, but not its footer. -/
def letter : KeyedDocument :=
  numbered { parts := [
    ⟨"header1", [Node.ofText (Marker.enclose "Name" ++ Marker.enclose "IMAGE:Logo")]⟩,
    ⟨"body", [Node.ofText (Marker.enclose "#Items" ++ Marker.enclose "value" ++ Marker.enclose "/Items")]⟩,
    ⟨"footer1", [Node.ofText (Marker.enclose "Sender")]⟩] }

/-- The error is that of the footer, the only part that fails alone. -/
theorem merge_partwise_letter :
    let c : Context := { data := [("Name", .text "Ann"), ("Items", .list [.text "tea", .text "milk"])] }
    let start : KeyedPart → Text × TextCache := fun p => (p.name, {})
    letter.keys.Nodup ∧ MergesPartwise (letter.singles {} c start) (letter.merge {} c "letter" {}).1 ∧
      (letter.singles {} c start).map Except.toBool = [true, true, false] ∧
      (letter.merge {} c "letter" {}).1.toBool = false :=
  ⟨by decide +kernel, merge_partwise_cached _ _ _ _ _ _ (by decide +kernel), by decide +kernel,
    by decide +kernel⟩

end KeyedDocument
end MailMerge
