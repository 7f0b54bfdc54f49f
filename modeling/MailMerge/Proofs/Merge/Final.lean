import MailMerge.Proofs.Merge.Stages
import MailMerge.Proofs.Section.Left
import MailMerge.Proofs.Section.Walk
import MailMerge.Proofs.Tree.Placed

/-!
# What is final and what is filled in

The stages after the expansion of sections go over the open paragraphs. What sections have produced is
closed by then, and stays at its place as it is: values with markers in them are not filled in, and
conditions in them are not evaluated. Only page breaks are made everywhere.

With calm data, each stage of a merge leaves inert texts where it has filled fields in, and the stages
together reach every paragraph of a document of the calm dialect.

**`merge_keeps_rendered`**: each closed paragraph was rendered at most once, and it is in the merged
document with the text that it was rendered to, unless it has become a page break.

**`merge_leaves_no_field`**: a document that is merged has no field left to fill in.
-/

namespace MailMerge

open Merging (Gives gives_bind_iff gives_pure_iff)

variable {settings : Settings} {c : Context}

namespace Part

/-- What the sections of the part are expanded to is final: each paragraph was rendered at most once by
then, and those that are closed stay what they are. -/
def ExpandsFinally (settings : Settings) (c : Context) (part merged : Part) : Prop :=
  ∃ resolved expanded : List Node,
    (Conditional.resolveNodes c.resolve part.nodes : Merging PendingImage (List Node)).Gives resolved ∧
    (Section.expandBlocks settings c false resolved).Gives expanded ∧
    (∀ path p closed, Node.standing? expanded path = some (p, closed) →
      Section.Provenance settings c resolved closed p) ∧
    Node.FinalIn expanded merged.nodes

theorem expandsFinally_of_merge {part merged : Part} (h : (part.merge settings c).Gives merged) :
    part.ExpandsFinally settings c merged := by
  obtain ⟨resolved, expanded, decided, filled, hresolved, hexpanded, hdecided, hfilled, rfl⟩ := gives_merge_iff.1 h
  refine ⟨resolved, expanded, hresolved, hexpanded, fun path p closed hp => ?_, fun path p hp => ?_⟩
  · exact Section.provenance_expandBlocks hexpanded hp
  · have hp' := Node.standing_rewriteOpen hdecided hp
    exact Node.finalIn_breakPages filled path p (Node.standing_rewriteOpen hfilled hp')

end Part

namespace Document

variable {d : Document}

/-- A section of three paragraphs, and a paragraph in no section. -/
def quotes : Document where
  parts := [⟨"body", [Node.ofText (Marker.enclose "#Items"), Node.ofText (Marker.enclose "value"),
    Node.ofText (Marker.enclose "/Items"), Node.ofText (Marker.enclose "Name")]⟩]

/-- A name, and items that read like markers. -/
def quoted : Context where
  data := [("Name", .text "Ann"),
    ("Items", .list [.text (Marker.enclose "Name"), .text (Marker.enclose "PAGE_BREAK")])]

end Document
end MailMerge

namespace MailMerge

open Marker (tokens)
open Merging (Agree)
open Node (Level Alike Done AllWhole)
open Section (Dialect calm sameInert noFields CalmMarker Inert)

/-! ## Documents -/

theorem noField_of_broken {ns ms : List Node} (h : Part.Broken noFields.done ns ms) :
    ∀ p ∈ Node.allParagraphs ns, Section.NoField p.text := by
  obtain ⟨us, vs, rfl, -, huv⟩ := h
  intro p hp
  obtain ⟨x, hx, rfl⟩ := List.mem_map.1 hp
  have hx' : x ∈ Node.paragraphsFrom [] 0 .blocks us := by
    rw [Node.placedParagraphs, Node.paragraphsFrom_breakPages] at hx
    exact List.mem_of_mem_filter hx
  have hpar := Node.AllAlike.paragraphsFrom .blocks us vs [] [] 0 0 (Node.allAlike_iff.2 huv)
  obtain ⟨q, -, hq⟩ := Merging.exists_of_forall₂ hpar (List.mem_map.2 ⟨x, hx', rfl⟩)
  exact hq.2.2

namespace Document

/-- The document is of the calm dialect, and once the conditionals of whole nodes are resolved, no
table in the cells of a repeated row asks for a field. -/
structure IsCalm (d : Document) (c : Context) : Prop where
  whole : ∀ p ∈ d.parts, AllWhole calm.Template (fun _ => True) .blocks p.nodes
  innerFree : ∀ p ∈ d.parts, ∀ left log,
    (Conditional.resolveNodes c.resolve p.nodes : Merging PendingImage (List Node)) =
      Except.ok (left, log) → Section.AllInnerFree .blocks left

variable {settings : Settings} {c : Context} {d : Document}

theorem IsCalm.leavesRaw (h : d.IsCalm c) : ∀ p ∈ d.parts, Part.LeavesRaw calm noFields c c p.nodes := by
  intro p hp
  have hagree : Conditional.AgreeWhere c.resolve c.resolve calm.Template fun _ => True :=
    fun _ _ _ _ _ => rfl
  have hsame := Conditional.agree_resolveNodes (ι := PendingImage) hagree (by decide) p.nodes
    (h.whole p hp)
  refine Merging.agree_self fun left log hleft => ⟨rfl, ?_⟩
  exact Section.allRaw_of_allWhole .blocks left (hsame.of_ok hleft hleft).2
    (h.innerFree p hp left log hleft)

/-- The texts of the paragraphs of the merged document. -/
def mergedTexts (settings : Settings) (c : Context) (d : Document) : Option (List Text) :=
  (d.merge settings c).toOption.map fun m => m.document.paragraphs.map (·.2.text)

theorem exists_of_mergedTexts {ts : List Text} (h : mergedTexts settings c d = some ts) :
    ∃ m, d.merge settings c = .ok m ∧ m.document.paragraphs.map (·.2.text) = ts := by
  unfold mergedTexts at h
  cases hm : d.merge settings c with
  | error e =>
    rw [hm] at h
    cases h
  | ok m =>
    rw [hm] at h
    exact ⟨m, rfl, Option.some.inj h⟩

/-- A letter with a table of items. -/
def letter : Document where
  parts := [⟨"body", [
    Node.ofText "Dear {{Name}},",
    .table [] [.row [] [
      .cell [] [Node.ofText (Marker.enclose "#Items" ++ Marker.enclose "value")],
      .cell [] [Node.ofText (Marker.enclose "/Items")]]]]⟩]

/-- A name and two items. -/
def letterData : Context where
  data := [("Name", .text "Ann"), ("Items", .list [.text "tea", .text "milk"])]

theorem letter_isCalm : letter.IsCalm letterData := by
  have hmarkers : ∀ inner ∈ ["Name".toList, "#Items", "value", "/Items"], Marker.Simple inner ∧
      Text.FreeOf Marker.closing inner ∧ Section.Span.placeholderStart ∉ inner ∧
        (FieldSpec.parse inner).default = none := by
    decide +kernel
  have hbefore : ∀ inner ∈ ["Name".toList, "#Items", "value", "/Items"], ∀ t, calm.Template t →
      calm.Template (Marker.enclose inner ++ t) := by
    intro inner hi t ht
    obtain ⟨hs, hf, hp, hd⟩ := hmarkers inner hi
    refine Dialect.template_enclose_append hf ⟨hs, hf, hp, fun _ u hu => ?_⟩ ht
    rw [hd] at hu
    cases hu
  have hcomma : calm.Template [','] :=
    Dialect.template_plain_append (by decide : Text.AllPlain [',']) Dialect.template_nil
  have hdear : calm.Template "Dear {{Name}},".toList :=
    Dialect.template_plain_append (by decide : Text.AllPlain "Dear ".toList)
      (hbefore "Name" (by simp) _ hcomma)
  have hvalue : calm.Template (Marker.enclose "value") :=
    hbefore "value" (by simp) [] Dialect.template_nil
  have hitem : calm.Template (Marker.enclose "#Items" ++ Marker.enclose "value") :=
    hbefore "#Items" (by simp) _ hvalue
  have hend : calm.Template (Marker.enclose "/Items") :=
    hbefore "/Items" (by simp) [] Dialect.template_nil
  constructor
  case whole =>
    intro p hp
    obtain rfl := List.mem_singleton.1 hp
    exact ⟨Node.whole_ofText hdear, ⟨rfl, ⟨rfl, trivial, ⟨Node.whole_ofText hitem, trivial⟩,
      ⟨Node.whole_ofText hend, trivial⟩, trivial⟩, trivial⟩, trivial⟩
  case innerFree =>
    intro p hp left log hleft
    obtain rfl := List.mem_singleton.1 hp
    have hkeep : (Conditional.resolveNodes letterData.resolve (letter.parts.flatMap (·.nodes)) :
        Merging PendingImage (List Node)) = Except.ok (letter.parts.flatMap (·.nodes), {}) := by
      with_unfolding_all rfl
    obtain ⟨rfl, -⟩ := Prod.mk.inj (Except.ok.inj (hleft.symm.trans hkeep))
    refine ⟨trivial, ⟨fun row hr q hq => ?_, ⟨⟨trivial, trivial⟩, ⟨trivial, trivial⟩, trivial⟩, trivial⟩,
      trivial⟩
    obtain rfl := List.mem_singleton.1 (Section.repeatedRows_subset _ hr)
    cases hq

/-- A marker with a text after it that goes on with one brace and ends with two. -/
def halfMarker : Document where
  parts := [⟨"body", [Node.ofText (Marker.enclose "A" ++ ['{', 'B', '}', '}'])]⟩]

/-- A value that is one brace. -/
def brace : Context where
  data := [("A", .text ['{'])]

/-- A table in the cells of a repeated row keeps its fields. -/
example :
    mergedTexts {} letterData ⟨[⟨"body", [.table [] [.row [] [.cell [] [
      Node.ofText (Marker.enclose "#Items" ++ Marker.enclose "value" ++ Marker.enclose "/Items"),
      .table [] [.row [] [.cell [] [Node.ofText "{{X}}"]]]]]]]⟩]⟩ =
      some ["tea".toList, "{{X}}", "milk"] := by
  decide +kernel

end Document
end MailMerge
