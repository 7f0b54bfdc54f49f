import MailMerge.Merge.Basic
import MailMerge.Proofs.Cache.Conditional
import MailMerge.Proofs.Cache.Expansion

/-!
# Merging with a cache

A merge empties its cache before it begins, and forgets the texts of the document after each stage of
each part. The last two stages read the paragraphs themselves.

**`KeyedDocument.merge_eq_merge_forget`**: for a document whose nodes have distinct keys, a merge with a cache has the
result, the warnings and the images, or the error, of a merge without one. In it every read gives the
text that the node has then.
-/

namespace MailMerge

variable {settings : Settings} {c : Context}

/-! ## Parts -/

theorem Agrees.outcome_eq {ι α : Type} {keys : List Nat} {σ : Store} {x : Cached ι α}
    {y : Merging ι α} (h : Agrees keys σ x y Cached.Same) : (x σ).1 = y := by
  cases h with
  | error e σ' hx hy _ => rw [hx, hy]
  | ok a b log σ' hx hy _ hab =>
    subst hab
    rw [hx, hy]

namespace Cached

/-- The nodes of a part after all stages. -/
def mergeNodes (settings : Settings) (c : Context) (ns : List Keyed) :
    Cached PendingImage (List Node) := do
  let ns ← rebuilt ns (resolveNodes c.resolve ns)
  invalidate
  let nodes ← settled (expandBlocks settings c false ns)
  invalidate
  let nodes ← lift (Node.rewriteOpen (Conditional.resolveParagraph settings c.resolve) .blocks 0 nodes)
  invalidate
  let nodes ← lift (Node.rewriteOpen (Part.fillIn settings c) .blocks 0 nodes)
  invalidate
  return Node.breakPages .blocks nodes

theorem agrees_mergeNodes {σ : Store} {ns : List Keyed} (h : Ready σ ns) :
    Agrees (Keyed.keys ns) σ (mergeNodes settings c ns)
      (Part.mergeNodes settings c (Keyed.forgetAll ns)) Same := by
  unfold mergeNodes Part.mergeNodes
  refine (agrees_rebuilt (agrees_resolveNodes σ ns h)).bind (L := Keyed.keys ns) ?_
    (List.Subset.refl _) (List.Subset.refl _)
  rintro σ₁ ms _ hs ⟨rfl, hkeys⟩
  have hready : Ready σ₁.invalidated ms := ((h.toKnown.step hs).sublist hkeys).ready_invalidated
  refine .invalidate ?_
  refine (agrees_settled (agrees_expandBlocks c false σ₁.invalidated ms hready)).bind (L := []) ?_
    hkeys.subset (List.nil_subset _)
  rintro σ₂ nodes _ - rfl
  refine .invalidate ?_
  refine (Agrees.lift (R := Same) (K := []) _ fun _ => rfl).bind (L := []) ?_ (List.nil_subset _)
    (List.nil_subset _)
  rintro σ₃ resolved _ - rfl
  refine .invalidate ?_
  refine (Agrees.lift (R := Same) (K := []) _ fun _ => rfl).bind (L := []) ?_ (List.nil_subset _)
    (List.nil_subset _)
  rintro σ₄ filled _ - rfl
  exact .invalidate (.pure rfl)

end Cached

/-- A part of a document whose nodes have keys. -/
structure KeyedPart where
  name : Text
  nodes : List Keyed

namespace KeyedPart

/-- The part without the keys. -/
def forget (p : KeyedPart) : Part where
  name := p.name
  nodes := Keyed.forgetAll p.nodes

/-- The part after all stages. -/
def merge (settings : Settings) (c : Context) (p : KeyedPart) : Cached PlacedImage Part := do
  let nodes ← (Cached.mergeNodes settings c p.nodes).mapImages fun nodes images =>
    images.map (PlacedImage.ofPending p.name nodes)
  return { name := p.name, nodes }

/-- The parts with keys that count up from a number. -/
def numberedAll (first : Nat) : List Part → List KeyedPart
  | [] => []
  | p :: ps =>
    let nodes := Keyed.numberedAll first p.nodes
    ⟨p.name, nodes⟩ :: numberedAll (first + (Keyed.keys nodes).length) ps

theorem map_forget_numberedAll (first : Nat) (ps : List Part) :
    (numberedAll first ps).map forget = ps := by
  induction ps generalizing first with
  | nil => rfl
  | cons p ps ih => rw [numberedAll, List.map_cons, ih, forget, Keyed.forgetAll_numberedAll]

theorem keys_flatMap_numberedAll (first : Nat) (ps : List Part) :
    Keyed.keys ((numberedAll first ps).flatMap nodes) =
      List.range' first (Keyed.keys ((numberedAll first ps).flatMap nodes)).length := by
  induction ps generalizing first with
  | nil => rfl
  | cons p ps ih =>
    have hfirst := Keyed.keys_numberedAll first p.nodes
    rw [numberedAll, List.flatMap_cons, Keyed.keys_append, List.length_append,
      ← List.range'_append_1, ← hfirst, ← ih]

theorem agrees_merge {σ : Store} {p : KeyedPart} (h : Ready σ p.nodes) :
    Agrees (Keyed.keys p.nodes) σ (merge settings c p) (Part.merge settings c p.forget)
      Cached.Same := by
  refine ((Cached.agrees_mergeNodes h).mapImages ?_).bind (L := []) ?_ (List.Subset.refl _)
    (List.nil_subset _)
  · rintro σ' nodes _ rfl
    rfl
  · rintro σ' nodes _ - rfl
    exact .pure rfl

end KeyedPart

/-! ## Documents -/

/-- A document whose nodes have keys. -/
structure KeyedDocument where
  parts : List KeyedPart

namespace KeyedDocument

/-- The document without the keys. -/
def forget (d : KeyedDocument) : Document where
  parts := d.parts.map KeyedPart.forget

/-- The nodes of all parts. -/
def nodes (d : KeyedDocument) : List Keyed :=
  d.parts.flatMap KeyedPart.nodes

/-- The keys of all nodes of the document. -/
def keys (d : KeyedDocument) : List Nat :=
  Keyed.keys d.nodes

/-- The document with keys that count up. -/
def numbered (d : Document) : KeyedDocument where
  parts := KeyedPart.numberedAll 0 d.parts

@[simp] theorem forget_numbered (d : Document) : (numbered d).forget = d := by
  rw [forget, numbered, KeyedPart.map_forget_numberedAll]

/-- **Every document is one whose nodes have distinct keys.** -/
theorem nodup_keys_numbered (d : Document) : (numbered d).keys.Nodup := by
  rw [keys, nodes, numbered, KeyedPart.keys_flatMap_numberedAll]
  exact List.nodup_range'

/-- What a merge carries along at its start: the cache that it was given, emptied. -/
def start (d : KeyedDocument) (name : Text) (cache : TextCache) : Store where
  document := name
  cache := cache.clear
  next := d.keys.foldr max 0 + 1

/-- The parts of the document after all stages. -/
def mergeParts (settings : Settings) (c : Context) (d : KeyedDocument) :
    Cached PlacedImage (List Part) :=
  d.parts.mapM (KeyedPart.merge settings c)

end KeyedDocument

/-- What a merge makes of a document whose parts are done. -/
def Merged.ofParts (settings : Settings) (x : Merging PlacedImage (List Part)) :
    Except MergeError Merged := do
  let (parts, log) ← x
  let document : Document := { parts }
  return {
    document
    warnings := log.warnings ++ PlacedImage.warnings settings log.images
      ++ Leftover.warnings (document.leftovers false)
    images := log.images }

theorem Document.merge_eq_ofParts (d : Document) :
    d.merge settings c = Merged.ofParts settings (d.parts.mapM (Part.merge settings c)) := rfl

namespace KeyedDocument

/-- The document of a name merged with the data in a context, and what the merge carries along at its
end. -/
def merge (settings : Settings) (c : Context) (name : Text) (cache : TextCache) (d : KeyedDocument) :
    Except MergeError Merged × Store :=
  let outcome := d.mergeParts settings c (d.start name cache)
  (Merged.ofParts settings outcome.1, outcome.2)

theorem ready_start {d : KeyedDocument} (h : d.keys.Nodup) (name : Text) (cache : TextCache) :
    Ready (d.start name cache) d.nodes where
  sealed := fun _ _ h => nomatch h
  distinct := h
  used := fun k hk => by
    have hle : ∀ ks : List Nat, k ∈ ks → k ≤ ks.foldr max 0 := by
      intro ks hk
      induction ks with
      | nil => cases hk
      | cons j ks ih =>
        rcases List.mem_cons.1 hk with rfl | hk
        · exact Nat.le_max_left _ _
        · exact Nat.le_trans (ih hk) (Nat.le_max_right _ _)
    exact Nat.lt_succ_of_le (hle _ hk)
  fits := fun _ _ _ h => nomatch h

theorem agrees_mergeParts {σ : Store} {d : KeyedDocument} (h : Ready σ d.nodes) :
    Agrees d.keys σ (d.mergeParts settings c) (d.forget.parts.mapM (Part.merge settings c))
      Cached.Same := by
  unfold mergeParts forget
  rw [List.mapM_map]
  refine .mapM (P := fun σ' p => Ready σ' p.nodes) (K := fun p => Keyed.keys p.nodes)
    (fun p _ σ' h' => KeyedPart.agrees_merge h')
    (fun p hp => (Cached.keys_subset_flatMap KeyedPart.nodes hp).subset) ?_ fun p hp => ?_
  · exact (Cached.pairwise_disjoint h.distinct).imp fun hd σ₁ σ₂ hy hs => hy.step hs hd
  · exact h.sublist
      (Keyed.allOf_sublist (List.sublist_flatten_of_mem (List.mem_map_of_mem hp)))

/-- **A merge with a cache has the outcome of a merge without one, and every read in it gives the text
that the node has then**, whatever the cache had kept before. -/
theorem merge_eq_merge_forget (settings : Settings) (c : Context) (name : Text) (cache : TextCache)
    (d : KeyedDocument) (h : d.keys.Nodup) :
    (d.merge settings c name cache).1 = d.forget.merge settings c ∧
      ∀ r ∈ (d.merge settings c name cache).2.reads, r.returned = r.current := by
  have hagrees := @agrees_mergeParts settings c _ d (ready_start h name cache)
  refine ⟨?_, hagrees.step.sound fun r hr => nomatch hr⟩
  rw [Document.merge_eq_ofParts]
  exact congrArg (Merged.ofParts settings) hagrees.outcome_eq

/-- Rows for each item, and a row with a list and a table in its cell. -/
def itemRows : Document where
  parts := [⟨"body", [.table [] [
    .row [] [.cell [] [Node.ofText (Marker.enclose "#Items" ++ Marker.enclose "value")]],
    .row [] [.cell [] [Node.ofText (Marker.enclose "/Items")]],
    .row [] [.cell [] [
      Node.ofText (Marker.enclose "#Items"),
      .table [] [.row [] [.cell [] [Node.ofText "total"]]],
      Node.ofText (Marker.enclose "/Items")]]]]⟩]

/-- Two items. -/
def twoItems : Context where
  data := [("Items", .list [.text "tea", .text "milk"])]

/-- Some of the reads are answered from the cache, and all of them rightly. -/
theorem merge_itemRows : (numbered itemRows).keys.Nodup ∧
    0 < ((numbered itemRows).merge {} twoItems "letter" {}).2.cache.hits ∧
    (((numbered itemRows).merge {} twoItems "letter" {}).1 = itemRows.merge {} twoItems ∧
      ∀ r ∈ ((numbered itemRows).merge {} twoItems "letter" {}).2.reads, r.returned = r.current) := by
  refine ⟨by decide +kernel, by decide +kernel, ?_⟩
  have h := merge_eq_merge_forget {} twoItems "letter" {} (numbered itemRows) (by decide +kernel)
  rwa [forget_numbered] at h

end KeyedDocument
end MailMerge
