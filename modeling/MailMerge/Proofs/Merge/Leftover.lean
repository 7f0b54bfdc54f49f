import MailMerge.Proofs.Marker.Scanned
import MailMerge.Proofs.Merge.Stages
import MailMerge.Proofs.Tree.Placed
import Mathlib.Data.List.Induction

/-!
# Leftover markers are reported

What is left over in a document are the markers of its paragraphs, wherever these stand: among the
blocks of a part or, at any depth, in the cells of the tables among them. They are listed part by part,
within a part in the order of the places of the paragraphs, and within a paragraph as the scanner finds
them.

Each kind of marker in the list makes one warning, which quotes the first three of that kind. The
warnings come in the order in which the kinds first appear. Images make none.

**`firstKinds_kinds`**: the kinds of the list in the order of their first appearance.

**`validate_complete`**: the list and the warnings, and what they mean for a document that is merged.
-/

namespace MailMerge

open Node (LeadsTo placedParagraphs)

/-! ## First appearances -/

/-- Of two items, the one that is left first when repetitions are dropped stands first in the list. -/
theorem pairwise_idxOf_eraseDups {α : Type} [DecidableEq α] (l : List α) :
    l.eraseDups.Pairwise fun a b => l.idxOf a < l.idxOf b := by
  induction l using List.reverseRecOn with
  | nil => exact .nil
  | append_singleton l x ih =>
    -- What follows the list does not change where its items first stand.
    have hleft : l.eraseDups.Pairwise fun a b => (l ++ [x]).idxOf a < (l ++ [x]).idxOf b := by
      refine ih.imp_of_mem fun ha hb hlt => ?_
      rwa [List.idxOf_append_of_mem (List.mem_eraseDups.1 ha),
        List.idxOf_append_of_mem (List.mem_eraseDups.1 hb)]
    rw [List.eraseDups_append]
    by_cases hx : x ∈ l
    · simpa [List.removeAll, hx] using hleft
    · have hlast : ([x].removeAll l).eraseDups = [x] := by
        simp [List.removeAll, hx, List.eraseDups_cons]
      rw [hlast, List.pairwise_append]
      refine ⟨hleft, List.pairwise_singleton .., fun a ha b hb => ?_⟩
      obtain rfl := List.mem_singleton.1 hb
      have hmem := List.mem_eraseDups.1 ha
      rw [List.idxOf_append_of_mem hmem, List.idxOf_append, if_neg hx]
      exact Nat.lt_of_lt_of_le (List.idxOf_lt_length_of_mem hmem) (Nat.le_add_left ..)

/-- The paragraphs are those to which paths lead from the blocks, in the order of the paths. -/
structure Node.AreListed (blocks : List Node) (listed : List (Path × Paragraph)) : Prop where
  mem_iff : ∀ path p, (path, p) ∈ listed ↔ LeadsTo p blocks path
  sorted : (listed.map Prod.fst).Pairwise (· < ·)

theorem Node.areListed_placedParagraphs (blocks : List Node) :
    AreListed blocks (placedParagraphs blocks) where
  mem_iff _ _ := mem_placedParagraphs_iff
  sorted := sorted_paragraphsFrom .blocks blocks 0

namespace Leftover

variable {ls : List Leftover} {l : Leftover}

/-- The kinds are those of the markers, images apart, in the order in which they first appear. -/
structure FirstKinds (ls : List Leftover) (kinds : List Marker.Kind) : Prop where
  nodup : kinds.Nodup
  mem_iff : ∀ kind, kind ∈ kinds ↔ kind ≠ .image ∧ ∃ l ∈ ls, l.kind = kind
  ordered : kinds.Pairwise fun kind kind' =>
    (ls.map (·.kind)).idxOf kind < (ls.map (·.kind)).idxOf kind'

/-- **Kinds are listed as they first appear.** -/
theorem firstKinds_kinds (ls : List Leftover) : FirstKinds ls ((kinds ls).filter (· != .image)) := by
  have hordered := (pairwise_idxOf_eraseDups (ls.map (·.kind))).sublist
    (List.filter_sublist (p := (· != Marker.Kind.image)))
  constructor
  · refine hordered.imp ?_
    rintro kind _ hlt rfl
    exact Nat.lt_irrefl _ hlt
  · intro kind
    simp [kinds, and_comm]
  · exact hordered

/-! ## The markers of paragraphs -/

/-- Giving up on texts without opening braces loses no marker. -/
theorem ofParagraph_eq (withImages : Bool) (part : Text) (p : Paragraph) :
    ofParagraph withImages part p =
      ((Marker.scan p.text).filter fun m => withImages || m.kind != .image).map (ofMarker part) := by
  rw [ofParagraph]
  split
  · rfl
  · next h => rw [Marker.scan_eq_nil_of_contains_eq_false (Bool.eq_false_iff.2 h)]; rfl

end Leftover

namespace Document

variable {d : Document} {withImages : Bool}

theorem leftovers_eq (d : Document) (withImages : Bool) : d.leftovers withImages =
    d.parts.flatMap fun part => (placedParagraphs part.nodes).flatMap fun x =>
      ((Marker.scan x.2.text).filter fun m => withImages || m.kind != .image).map
        (Leftover.ofMarker part.name) := by
  rw [leftovers, paragraphs, List.flatMap_assoc]
  congr 1
  funext part
  rw [Node.allParagraphs, List.map_map, List.flatMap_map]
  simp only [Function.comp_apply, Leftover.ofParagraph_eq]

/-- A marker is left over if a path leads to a paragraph that it stands in. -/
theorem mem_leftovers_iff {l : Leftover} : l ∈ d.leftovers withImages ↔
    ∃ part ∈ d.parts, ∃ path p, LeadsTo p part.nodes path ∧ ∃ m ∈ Marker.scan p.text,
      (withImages = true ∨ m.kind ≠ .image) ∧ l = Leftover.ofMarker part.name m := by
  rw [leftovers_eq]
  simp only [List.mem_flatMap, List.mem_map, List.mem_filter, Bool.or_eq_true, bne_iff_ne, Prod.exists,
    Node.mem_placedParagraphs_iff, and_assoc, eq_comm (a := l)]

/-- What is left over in a merged document is reported, but for images. -/
theorem warning_of_merge {settings : Settings} {c : Context} {m : Merged} (h : d.merge settings c = .ok m)
    {l : Leftover} (hl : l ∈ m.document.leftovers false) (hk : l.kind ≠ .image) :
    .leftover l.kind ((Leftover.textsOf l.kind (m.document.leftovers false)).take 3) ∈ m.warnings := by
  obtain ⟨log, -, -, hwarnings⟩ := exists_log_of_merge h
  have hkind := (Leftover.firstKinds_kinds (m.document.leftovers false)).mem_iff l.kind
  rw [hwarnings]
  exact List.mem_append_right _ (List.mem_map_of_mem (hkind.2 ⟨hk, l, hl, rfl⟩))

/-- **No leftover goes unreported.** What is left over in a document are the markers of all its
paragraphs, each as often as it stands there and in the order of the document. Each kind but images makes
one warning. In a document that is merged, each marker that is no image is in the list, and the warnings
of the merge quote its kind. -/
theorem validate_complete (d : Document) (withImages : Bool) :
    (∀ part ∈ d.parts, Node.AreListed part.nodes (placedParagraphs part.nodes)) ∧
    (d.validate withImages).leftovers =
      (d.parts.flatMap fun part => (placedParagraphs part.nodes).flatMap fun x =>
        ((Marker.scan x.2.text).filter fun m => withImages || m.kind != .image).map
          (Leftover.ofMarker part.name)) ∧
    (∃ kinds, Leftover.FirstKinds (d.validate withImages).leftovers kinds ∧
      (d.validate withImages).warnings = kinds.map fun kind =>
        .leftover kind ((Leftover.textsOf kind (d.validate withImages).leftovers).take 3)) ∧
    ((d.validate withImages).isClean = true ↔ (d.validate withImages).leftovers = []) ∧
    ∀ settings c merged, d.merge settings c = .ok merged →
      ∀ part ∈ merged.document.parts, ∀ path p, LeadsTo p part.nodes path →
        ∀ m ∈ Marker.scan p.text, m.kind ≠ .image →
          let texts := Leftover.textsOf m.kind (merged.document.validate false).leftovers
          m.text ∈ texts ∧ .leftover m.kind (texts.take 3) ∈ merged.warnings ∧
          (Warning.leftoverMessage m.kind).toList ++ Text.quotedList (texts.take 3) ∈
            Warning.messages merged.warnings := by
  refine ⟨fun part _ => Node.areListed_placedParagraphs part.nodes, leftovers_eq d withImages,
    ⟨_, Leftover.firstKinds_kinds _, rfl⟩, List.isEmpty_iff, ?_⟩
  intro settings c merged h part hpart path p hpath m hm hk texts
  have hl : Leftover.ofMarker part.name m ∈ merged.document.leftovers false :=
    mem_leftovers_iff.2 ⟨part, hpart, path, p, hpath, m, hm, .inr hk, rfl⟩
  have hwarning := warning_of_merge h hl hk
  refine ⟨?_, hwarning, List.mem_eraseDups.2 (List.mem_map_of_mem (f := Warning.message) hwarning)⟩
  exact List.mem_map.2 ⟨_, List.mem_filter.2 ⟨hl, decide_eq_true rfl⟩, rfl⟩

/-- A conditional that is not closed, and in a table the end of a section that is not open. -/
def draft : Document where
  parts := [⟨"body", [Node.ofText "{{IF Vip}}Dear {{Name}}",
    .table [] [.row [] [.cell [] [Node.ofText "{{/Items}} {{/Rows}}"]]]]⟩]

/-- What is left of the draft is found where it stands, in the table too. -/
theorem validate_complete_draft :
    let c : Context := { data := [("Name", .text "Ann")] }
    ∃ merged, draft.merge {} c = .ok merged ∧
      ∃ part ∈ merged.document.parts, ∃ p, LeadsTo p part.nodes [1, 0, 0, 0] ∧
        ∃ m ∈ Marker.scan p.text, m.text = "{{/Rows}}" ∧
          let texts := Leftover.textsOf m.kind (merged.document.validate false).leftovers
          m.text ∈ texts ∧ .leftover m.kind (texts.take 3) ∈ merged.warnings ∧
          (Warning.leftoverMessage m.kind).toList ++ Text.quotedList (texts.take 3) ∈
            Warning.messages merged.warnings := by
  intro c
  have hplaces : (draft.merge {} c).toOption.map (fun merged => merged.document.parts.map fun part =>
      (placedParagraphs part.nodes).map fun x => (x.1, x.2.text)) =
      some [[([0], "{{IF Vip}}Dear Ann".toList), ([1, 0, 0, 0], "{{/Items}} {{/Rows}}")]] := by
    decide +kernel
  cases h : draft.merge {} c with
  | error e =>
    rw [h] at hplaces
    cases hplaces
  | ok merged =>
    rw [h] at hplaces
    have hparts := Option.some.inj hplaces
    obtain ⟨part, hpart, hlisted⟩ := List.mem_map.1 (hparts ▸ List.mem_singleton_self _)
    obtain ⟨⟨path, p⟩, hx, he⟩ := List.mem_map.1 (hlisted ▸ List.mem_cons_of_mem _ (List.mem_singleton_self _))
    obtain ⟨rfl, ht⟩ := Prod.mk.inj he
    have hpath := Node.mem_placedParagraphs_iff.1 hx
    have hm : .ofInner "/Rows" 11 ∈ Marker.scan p.text := by
      rw [ht]
      decide +kernel
    exact ⟨merged, rfl, part, hpart, p, hpath, _, hm, rfl,
      (validate_complete draft false).2.2.2.2 {} c merged h part hpart _ p hpath _ hm (by decide +kernel)⟩

end Document
end MailMerge
