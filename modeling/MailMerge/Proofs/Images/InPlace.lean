import MailMerge.Proofs.Images.Accounts
import MailMerge.Proofs.Images.Expansion
import MailMerge.Proofs.Merge.Stages
import MailMerge.Proofs.Tree.Placed

/-!
# Images in their places

When all paragraphs have their images, the paragraphs of a tree fall into groups: one paragraph by itself,
or those of a row that a section has produced. The images of a group are asked for by the markers of its
paragraphs, and each is placed in one that has its marker. So a paragraph has an image for each of its
markers, unless another paragraph of its row has the same marker.

This is what becomes of a document of the calm dialect that is merged with calm data. Image markers stand in
the merged text, and each asks for one image.

**`Grouped.countP`**: a paragraph has an image for each of its markers that it shares with none.

**`merge_images_in_place`**: the images of a merged document are placed in the paragraphs with their markers.
-/

namespace MailMerge

open Merging (Reports reports_pure reports_mapM)
open Node (Level Accounts AccountsFrom paragraphsAt paragraphsFrom placedParagraphs at?)
open Section (pictures pictured noPictures AllRaw Unfilled)

/-! ## Groups -/

/-- Two places are in one row that a section has produced. -/
def Node.ShareRow (nodes : List Node) (a b : Path) : Prop :=
  ∃ row attributes cells, at? nodes row = some (.row attributes cells true) ∧ row <+: a ∧ row <+: b

/-- The paragraphs fall into groups with their images: one paragraph by itself, or several of one row that
a section has produced. -/
def Grouped (nodes : List Node) (ps : List (Path × Paragraph)) (is : List PendingImage) : Prop :=
  ∃ gs : List (List (Path × Paragraph) × List PendingImage),
    ps = gs.flatMap Prod.fst ∧ is.Perm (gs.flatMap Prod.snd) ∧
      ∀ g ∈ gs, Claims g.1 g.2 ∧ ∀ x ∈ g.1, ∀ y ∈ g.1, x = y ∨ Node.ShareRow nodes x.1 y.1

namespace Grouped

variable {nodes : List Node} {ps qs : List (Path × Paragraph)} {is js : List PendingImage} {n : Node}
  {index : Nat}

theorem nil : Grouped nodes [] [] :=
  ⟨[], rfl, .nil, nofun⟩

/-- A single group. -/
theorem of_claims (h : Claims ps is) (hs : ∀ x ∈ ps, ∀ y ∈ ps, x = y ∨ Node.ShareRow nodes x.1 y.1) :
    Grouped nodes ps is := by
  refine ⟨[(ps, is)], ?_, ?_, List.forall_mem_singleton.2 ⟨h, hs⟩⟩
  · rw [List.flatMap_singleton]
  · rw [List.flatMap_singleton]

theorem append (h : Grouped nodes ps is) (h' : Grouped nodes qs js) : Grouped nodes (ps ++ qs) (is ++ js) := by
  obtain ⟨gs, rfl, his, hgs⟩ := h
  obtain ⟨gs', rfl, hjs, hgs'⟩ := h'
  refine ⟨gs ++ gs', ?_, ?_, List.forall_mem_append.2 ⟨hgs, hgs'⟩⟩
  · rw [List.flatMap_append]
  · rw [List.flatMap_append]
    exact his.append hjs

theorem perm (h : Grouped nodes ps is) (hp : js.Perm is) : Grouped nodes ps js := by
  obtain ⟨gs, rfl, his, hgs⟩ := h
  exact ⟨gs, rfl, hp.trans his, hgs⟩

theorem shareRow_under {a b : Path} (h : Node.ShareRow n.children a b) (hn : nodes[index]? = some n) :
    Node.ShareRow nodes (index :: a) (index :: b) := by
  obtain ⟨row, attributes, cells, hat, ha, hb⟩ := h
  cases row with
  | nil => cases hat
  | cons i path =>
    refine ⟨index :: i :: path, attributes, cells, ?_, List.cons_prefix_cons.2 ⟨rfl, ha⟩,
      List.cons_prefix_cons.2 ⟨rfl, hb⟩⟩
    rwa [Node.at?_cons_of_getElem? hn]

/-- Groups among the nodes inside a node, seen from the list that holds the node. -/
theorem under (h : Grouped n.children ps is) (hn : nodes[index]? = some n) :
    Grouped nodes (ps.map fun x => (index :: x.1, x.2)) (is.map (PendingImage.under index)) := by
  obtain ⟨gs, rfl, his, hgs⟩ := h
  refine ⟨gs.map fun g => (g.1.map fun x => (index :: x.1, x.2), g.2.map (PendingImage.under index)),
    ?_, ?_, ?_⟩
  · rw [List.map_flatMap, List.flatMap_map]
  · rw [List.flatMap_map, ← List.map_flatMap]
    exact his.map _
  · intro g' hg'
    obtain ⟨g, hg, rfl⟩ := List.mem_map.1 hg'
    obtain ⟨hclaims, hshare⟩ := hgs g hg
    refine ⟨hclaims.under index, fun x' hx' y' hy' => ?_⟩
    obtain ⟨x, hx, rfl⟩ := List.mem_map.1 hx'
    obtain ⟨y, hy, rfl⟩ := List.mem_map.1 hy'
    rcases hshare x hx y hy with rfl | hrow
    · exact .inl rfl
    · exact .inr (shareRow_under hrow hn)

end Grouped

/-! ## Trees -/

theorem own_of_has {closed : Bool} {p : Paragraph} {is : List PendingImage} (h : Node.Has Own closed p is) :
    Own p is := by
  cases closed <;> exact h

mutual

/-- **The paragraphs fall into groups with their images.** -/
theorem grouped_of_accounts : ∀ (level : Level) (n : Node) {closed : Bool} {is : List PendingImage},
    Accounts Own closed level n is → ∀ {nodes : List Node} {index : Nat}, nodes[index]? = some n →
      Grouped nodes ((paragraphsAt [] level n).map fun x => (index :: x.1, x.2))
        (is.map (PendingImage.under index))
  | .blocks, .paragraph p rendered, _, is, h, _, index, _ => by
    refine .of_claims (Claims.under (own_of_has h) index) fun x hx y hy => .inl ?_
    rw [List.mem_singleton.1 hx, List.mem_singleton.1 hy]
  | .blocks, .table _ rows _, _, _, h, _, _, hn =>
    Grouped.under (grouped_of_accountsFrom .rows rows h fun i n hi => by rwa [Nat.zero_add]) hn
  | .rows, .row attributes cells rendered, _, _, .inl h, _, _, hn =>
    Grouped.under (grouped_of_accountsFrom .cells cells h fun i n hi => by rwa [Nat.zero_add]) hn
  | .rows, .row attributes cells rendered, _, _, .inr ⟨hr, h⟩, nodes, index, hn => by
    refine .of_claims (h.under index) fun x hx y hy => .inr ⟨[index], attributes, cells, ?_, ?_, ?_⟩
    · rwa [hr] at hn
    · obtain ⟨x, -, rfl⟩ := List.mem_map.1 hx
      exact List.prefix_append [index] x.1
    · obtain ⟨y, -, rfl⟩ := List.mem_map.1 hy
      exact List.prefix_append [index] y.1
  | .cells, .cell _ children _, _, _, h, _, _, hn =>
    Grouped.under (grouped_of_accountsFrom .blocks children h fun i n hi => by rwa [Nat.zero_add]) hn
  | .blocks, .row .., _, _, h, _, _, _ | .blocks, .cell .., _, _, h, _, _, _
  | .blocks, .pageBreak _, _, _, h, _, _, _ | .blocks, .verbatim _, _, _, h, _, _, _
  | .rows, .paragraph .., _, _, h, _, _, _ | .rows, .table .., _, _, h, _, _, _
  | .rows, .cell .., _, _, h, _, _, _ | .rows, .pageBreak _, _, _, h, _, _, _
  | .rows, .verbatim _, _, _, h, _, _, _ | .cells, .paragraph .., _, _, h, _, _, _
  | .cells, .table .., _, _, h, _, _, _ | .cells, .row .., _, _, h, _, _, _
  | .cells, .pageBreak _, _, _, h, _, _, _ | .cells, .verbatim _, _, _, h, _, _, _ => by
    obtain rfl : _ = [] := h
    exact .nil

theorem grouped_of_accountsFrom : ∀ (level : Level) (ns : List Node) {closed : Bool} {index : Nat}
    {is : List PendingImage}, AccountsFrom Own closed level index ns is → ∀ {nodes : List Node},
      (∀ i n, ns[i]? = some n → nodes[index + i]? = some n) →
      Grouped nodes (paragraphsFrom [] index level ns) is
  | _, [], _, _, _, h, _, _ => by
    obtain rfl : _ = [] := h
    exact .nil
  | level, n :: ns, _, index, _, ⟨here, later, his, hn, hns⟩, nodes, hnodes => by
    refine Grouped.perm ?_ his
    rw [paragraphsFrom, List.nil_append, Node.paragraphsAt_singleton]
    refine (grouped_of_accounts level n hn (hnodes 0 n rfl)).append ?_
    refine grouped_of_accountsFrom level ns hns fun i m hm => ?_
    rw [Nat.add_assoc, Nat.add_comm 1]
    exact hnodes (i + 1) m hm

end

/-! ## Counting -/

/-- Only one of several lists has items of the kind. -/
theorem countP_flatMap_of_others {α β : Type} {f : α → List β} {p : β → Bool} {before after : List α} {a : α}
    (h : ∀ a' ∈ before ++ after, ∀ b ∈ f a', p b = false) :
    ((before ++ a :: after).flatMap f).countP p = (f a).countP p := by
  have hzero : ∀ as : List α, (∀ a' ∈ as, ∀ b ∈ f a', p b = false) → (as.flatMap f).countP p = 0 := by
    intro as has
    rw [List.countP_eq_zero]
    intro b hb
    obtain ⟨a', ha', hb⟩ := List.mem_flatMap.1 hb
    simp [has a' ha' b hb]
  rw [List.forall_mem_append] at h
  rw [List.flatMap_append, List.flatMap_cons, List.countP_append, List.countP_append, hzero before h.1,
    hzero after h.2, Nat.zero_add, Nat.add_zero]

namespace Grouped

variable {nodes : List Node} {ps : List (Path × Paragraph)} {is : List PendingImage}

theorem markers (h : Grouped nodes ps is) :
    (is.map PendingImage.picture).Perm (ps.flatMap fun x => pictures x.2.text) := by
  obtain ⟨gs, rfl, his, hgs⟩ := h
  refine (his.map _).trans ?_
  clear his
  induction gs with
  | nil => exact .nil
  | cons g gs ih =>
    rw [List.forall_mem_cons] at hgs
    simp only [List.flatMap_cons, List.map_append, List.flatMap_append]
    exact hgs.1.1.markers.append (ih hgs.2)

theorem places (h : Grouped nodes ps is) :
    ∀ i ∈ is, ∃ x ∈ ps, i.place = some x.1 ∧ i.picture ∈ pictures x.2.text := by
  obtain ⟨gs, rfl, his, hgs⟩ := h
  intro i hi
  obtain ⟨g, hg, hi⟩ := List.mem_flatMap.1 (his.subset hi)
  obtain ⟨x, hx, hplace⟩ := (hgs g hg).1.places i hi
  exact ⟨x, List.mem_flatMap.2 ⟨g, hg, hx⟩, hplace⟩

variable {x : Path × Paragraph} {k : Picture}

/-- A marker that one paragraph of a group has, and no other one, asks for images of that paragraph. -/
theorem countP_of_claims {as bs : List (Path × Paragraph)} (h : Claims (as ++ x :: bs) is)
    (hk : ∀ y ∈ as ++ bs, k ∉ pictures y.2.text) :
    is.countP (fun i => i.place = some x.1 ∧ i.picture = k) = (pictures x.2.text).count k := by
  have hsame : is.countP (fun i => i.place = some x.1 ∧ i.picture = k) =
      (is.map PendingImage.picture).count k := by
    rw [List.count, List.countP_map]
    refine List.countP_congr fun i hi => ?_
    simp only [decide_eq_true_eq, Function.comp_apply, beq_iff_eq, and_iff_right_iff_imp]
    rintro rfl
    obtain ⟨y, hy, hplace, hm⟩ := h.places i hi
    have hyx : y = x := by
      by_contra hne
      refine hk y ?_ hm
      simpa [hne] using hy
    rw [hplace, hyx]
  rw [List.forall_mem_append] at hk
  have hzero : ∀ ys : List (Path × Paragraph), (∀ y ∈ ys, k ∉ pictures y.2.text) →
      (ys.flatMap fun y => pictures y.2.text).count k = 0 := by
    intro ys hys
    rw [List.count_eq_zero]
    intro hm
    obtain ⟨y, hy, hky⟩ := List.mem_flatMap.1 hm
    exact hys y hy hky
  rw [hsame, h.markers.count_eq, List.flatMap_append, List.flatMap_cons, List.count_append,
    List.count_append, hzero as hk.1, hzero bs hk.2, Nat.zero_add, Nat.add_zero]

/-- **A paragraph has an image for each of its markers** that it shares with no paragraph of its row. -/
theorem countP (h : Grouped nodes ps is) (hn : (ps.map Prod.fst).Nodup) (hx : x ∈ ps)
    (hk : ∀ y ∈ ps, Node.ShareRow nodes x.1 y.1 → k ∈ pictures y.2.text → y = x) :
    is.countP (fun i => i.place = some x.1 ∧ i.picture = k) = (pictures x.2.text).count k := by
  obtain ⟨gs, rfl, his, hgs⟩ := h
  obtain ⟨g, hg, hxg⟩ := List.mem_flatMap.1 hx
  obtain ⟨before, after, rfl⟩ := List.append_of_mem hg
  obtain ⟨as, bs, hab⟩ := List.append_of_mem hxg
  have hother : ∀ y ∈ before.flatMap Prod.fst ++ as ++ (bs ++ after.flatMap Prod.fst), y.1 ≠ x.1 := by
    have hsplit : (before ++ g :: after).flatMap Prod.fst =
        (before.flatMap Prod.fst ++ as) ++ x :: (bs ++ after.flatMap Prod.fst) := by
      rw [List.flatMap_append, List.flatMap_cons, hab]
      simp only [List.append_assoc, List.cons_append]
    rw [hsplit, List.map_append, List.map_cons, List.nodup_middle, ← List.map_append] at hn
    intro y hy he
    exact (List.nodup_cons.1 hn).1 (List.mem_map.2 ⟨y, hy, he⟩)
  obtain ⟨hclaims, hshare⟩ := hgs g hg
  have hothers : ∀ g' ∈ before ++ after, ∀ i ∈ g'.2, decide (i.place = some x.1 ∧ i.picture = k) = false := by
    intro g' hg' i hi
    have hmem : g' ∈ before ++ g :: after :=
      (List.mem_append.1 hg').elim (List.mem_append_left _) fun h =>
        List.mem_append_right _ (List.mem_cons_of_mem g h)
    obtain ⟨y, hy, hplace, -⟩ := (hgs g' hmem).1.places i hi
    have hne : y.1 ≠ x.1 := by
      refine hother y ?_
      rcases List.mem_append.1 hg' with hg' | hg'
      · exact List.mem_append_left _ (List.mem_append_left _ (List.mem_flatMap.2 ⟨g', hg', hy⟩))
      · exact List.mem_append_right _ (List.mem_append_right _ (List.mem_flatMap.2 ⟨g', hg', hy⟩))
    simp [hplace, hne]
  rw [his.countP_eq, countP_flatMap_of_others hothers]
  rw [hab] at hclaims hshare
  refine countP_of_claims hclaims fun y hy hm => ?_
  have hyg : y ∈ as ++ x :: bs := by
    rcases List.mem_append.1 hy with hy | hy
    · exact List.mem_append_left _ hy
    · exact List.mem_append_right _ (List.mem_cons_of_mem x hy)
  have hne : y.1 ≠ x.1 := by
    refine hother y ?_
    rcases List.mem_append.1 hy with hy | hy
    · exact List.mem_append_left _ (List.mem_append_right _ hy)
    · exact List.mem_append_right _ (List.mem_append_left _ hy)
  rcases hshare x (by simp) y hyg with rfl | hrow
  · exact hne rfl
  · have hyps : y ∈ (before ++ g :: after).flatMap Prod.fst :=
      List.mem_flatMap.2 ⟨g, hg, hab ▸ hyg⟩
    exact hne (congrArg Prod.fst (hk y hyps hrow hm))

end Grouped

variable {settings : Settings} {c : Context} {d : Document}

/-! ## Parts -/

/-- The conditionals of a template leave a template. -/
theorem template_of_resolveParagraph {D : Section.Dialect} {p q : Paragraph} (ht : D.Template p.text)
    (h : (Conditional.resolveParagraph (ι := PendingImage) settings c.resolve p).Gives q) :
    D.Template q.text := by
  obtain ⟨t, hresolve, hpure⟩ := Merging.gives_bind_iff.1 h
  obtain ⟨log, hlog⟩ := hresolve
  obtain rfl := Merging.gives_pure_iff.1 hpure
  rw [Paragraph.text_setText]
  exact Conditional.tokens_of_resolve Section.Dialect.divisible_fits ht hlog

section Calm

variable (hsymbol : Text.Unopened settings.currencySymbol)
include hsymbol

theorem reports_fillIn (hc : c.Calm) {p : Paragraph} (ht : pictured.Template p.text) :
    (Part.fillIn settings c p).Reports Own := by
  refine Section.reports_here ((Section.reports_substitute hsymbol hc ht).bind fun u rs hu =>
    reports_pure ?_)
  rwa [List.append_nil, Paragraph.text_setText]

/-- **The stages of a merge give each paragraph its images**, and each row that a section has produced. -/
theorem reports_mergeNodes (hc : c.Calm) {nodes : List Node}
    (h : ∀ left, (Conditional.resolveNodes (ι := PendingImage) c.resolve nodes).Gives left →
      AllRaw pictured noPictures .blocks left) :
    (Part.mergeNodes settings c nodes).Reports (AccountsFrom Own false .blocks 0) := by
  unfold Part.mergeNodes
  refine (Merging.silent_resolveNodes c.resolve nodes).bind fun left hleft => ?_
  refine (Section.reports_expandBlocks hsymbol hc false left (h left hleft)).bind fun expanded is he => ?_
  have hexpanded := Node.accountsFrom_iff.2 he
  refine (Node.reports_rewriteOpen (Q := Unfilled) ?_ .blocks 0 expanded is hexpanded).bind
    fun resolved js hr => ?_
  · rintro p _ ⟨ht, rfl⟩
    refine (Merging.silent_resolveParagraph settings c.resolve p).gives.mono ?_
    rintro q _ ⟨hq, rfl⟩
    exact ⟨template_of_resolveParagraph ht hq, rfl⟩
  refine (Node.reports_rewriteOpen (Q := Own) ?_ .blocks 0 resolved (is ++ js) hr).bind
    fun filled ks hf => reports_pure ?_
  · rintro p _ ⟨ht, rfl⟩
    exact reports_fillIn hsymbol hc ht
  · rw [List.append_nil, ← List.append_assoc]
    exact Node.accountsFrom_breakPages .blocks filled hf

end Calm

/-- The image marker that asks for the image. -/
def PlacedImage.picture (i : PlacedImage) : Picture :=
  i.request.picture

/-- The paragraph shares the image marker with no other paragraph of its row, if it stands in a row that a
section has produced. -/
def Part.Unshared (part : Part) (x : Path × Paragraph) (k : Picture) : Prop :=
  ∀ y ∈ placedParagraphs part.nodes, Node.ShareRow part.nodes x.1 y.1 → k ∈ pictures y.2.text → y = x

/-- The images are asked for by the image markers of the part. Each is placed in a paragraph that has its
marker, and a paragraph has one for each of its markers that it does not share. -/
structure Part.InPlace (part : Part) (is : List PlacedImage) : Prop where
  markers : (is.map PlacedImage.picture).Perm
    ((placedParagraphs part.nodes).flatMap fun x => pictures x.2.text)
  places : ∀ i ∈ is, ∃ x ∈ placedParagraphs part.nodes,
    i.place = some (part.name, x.1) ∧ i.picture ∈ pictures x.2.text
  counts : ∀ x ∈ placedParagraphs part.nodes, ∀ k, part.Unshared x k →
    is.countP (fun i => i.place = some (part.name, x.1) ∧ i.picture = k) = (pictures x.2.text).count k

theorem place_ofPending {nodes : List Node} {x : Path × Paragraph} (hx : x ∈ placedParagraphs nodes)
    {i : PendingImage} (hi : i.place = some x.1) (name : Text) :
    (PlacedImage.ofPending name nodes i).place = some (name, x.1) := by
  obtain ⟨rendered, hat⟩ := Node.exists_at?_of_mem hx
  rw [PlacedImage.ofPending, hi]
  simp [hat, Node.isParagraph, Node.paragraph?]

theorem inPlace_of_accounts {nodes : List Node} {is : List PendingImage}
    (h : AccountsFrom Own false .blocks 0 nodes is) (name : Text) :
    Part.InPlace ⟨name, nodes⟩ (is.map (PlacedImage.ofPending name nodes)) := by
  have hgrouped : Grouped nodes (placedParagraphs nodes) is :=
    grouped_of_accountsFrom .blocks nodes h fun i n hi => by rwa [Nat.zero_add]
  constructor
  case markers =>
    rw [List.map_map]
    exact hgrouped.markers
  case places =>
    intro j hj
    obtain ⟨i, hi, rfl⟩ := List.mem_map.1 hj
    obtain ⟨x, hx, hplace, hm⟩ := hgrouped.places i hi
    exact ⟨x, hx, place_ofPending hx hplace name, hm⟩
  case counts =>
    intro x hx k hk
    rw [← hgrouped.countP (Node.nodup_paragraphsFrom .blocks nodes 0) hx hk, List.countP_map]
    refine List.countP_congr fun i hi => ?_
    obtain ⟨y, hy, hplace, -⟩ := hgrouped.places i hi
    simp only [Function.comp_apply, decide_eq_true_eq, place_ofPending hy hplace name, hplace,
      Option.some.injEq, Prod.mk.injEq, true_and]
    rfl

/-! ## Documents -/

/-- Once the conditionals of whole nodes are resolved, the document is a template of the calm dialect in
which image markers stand in one line, and no table in the cells of a repeated row has an image marker. -/
def Document.IsPictured (d : Document) (c : Context) : Prop :=
  ∀ part ∈ d.parts, ∀ left,
    (Conditional.resolveNodes (ι := PendingImage) c.resolve part.nodes).Gives left →
      AllRaw pictured noPictures .blocks left

theorem reports_mergeParts (hsymbol : Text.Unopened settings.currencySymbol) (hc : c.Calm)
    (hd : d.IsPictured c) :
    Reports (fun (parts : List Part) is => ∃ rs : List (Part × List PlacedImage),
      List.Forall₂ (fun p r => r.1.name = p.name ∧ r.1.InPlace r.2) d.parts rs ∧
        parts = rs.map Prod.fst ∧ is = rs.flatMap Prod.snd) (d.parts.mapM (Part.merge settings c)) := by
  refine reports_mapM (P := fun (p q : Part) is => q.name = p.name ∧ q.InPlace is) fun part hpart => ?_
  unfold Part.merge
  refine Reports.bind (P := fun nodes is => Part.InPlace ⟨part.name, nodes⟩ is)
    ((reports_mergeNodes hsymbol hc (hd part hpart)).mapImages fun nodes is h =>
      inPlace_of_accounts h part.name) fun nodes is h => reports_pure ⟨rfl, ?_⟩
  rwa [List.append_nil]

theorem perm_pictures_of_parts {rs : List (Part × List PlacedImage)} (h : ∀ r ∈ rs, r.1.InPlace r.2) :
    ((rs.flatMap Prod.snd).map PlacedImage.picture).Perm
      ((Document.paragraphs ⟨rs.map Prod.fst⟩).flatMap fun q => pictures q.2.text) := by
  induction rs with
  | nil => exact .nil
  | cons r rs ih =>
    rw [List.forall_mem_cons] at h
    rw [List.flatMap_cons, List.map_append, Document.paragraphs, List.map_cons, List.flatMap_cons,
      List.flatMap_append]
    refine .append ?_ (ih h.2)
    rw [List.flatMap_map, Node.allParagraphs, List.flatMap_map]
    exact h.1.markers

/-- **The images of a merged document are placed in the paragraphs with their markers.** There is one for
each image marker of the document. Each is placed in a paragraph that has its marker, and a paragraph has
one for each of its markers that it shares with no other one in a row that a section has produced. -/
theorem Document.merge_images_in_place (hsymbol : Text.Unopened settings.currencySymbol) (hc : c.Calm)
    (hd : d.IsPictured c) (hnames : (d.parts.map Part.name).Nodup) {m : Merged}
    (h : d.merge settings c = .ok m) :
    (m.images.map PlacedImage.picture).Perm (m.document.paragraphs.flatMap fun q => pictures q.2.text) ∧
    (∀ i ∈ m.images, ∃ part ∈ m.document.parts, ∃ x ∈ placedParagraphs part.nodes,
      i.place = some (part.name, x.1) ∧ i.picture ∈ pictures x.2.text) ∧
    ∀ part ∈ m.document.parts, ∀ x ∈ placedParagraphs part.nodes, ∀ k, part.Unshared x k →
      m.images.countP (fun i => i.place = some (part.name, x.1) ∧ i.picture = k) =
        (pictures x.2.text).count k := by
  obtain ⟨log, hmerge, himages⟩ := exists_images_of_merge h
  obtain ⟨rs, hrs, hparts, hlog⟩ := reports_mergeParts hsymbol hc hd _ log hmerge
  have hin : ∀ r ∈ rs, r.1.InPlace r.2 := fun r hr => by
    obtain ⟨p, -, -, hp⟩ := Merging.exists_of_forall₂ hrs.flip hr
    exact hp
  have hnodup : (rs.map fun r => r.1.name).Nodup := by
    rwa [Merging.map_eq_of_forall₂ hrs fun p r h => h.1]
  have hdocument : m.document = ⟨rs.map Prod.fst⟩ := congrArg Document.mk hparts
  rw [himages, hlog, hdocument]
  refine ⟨perm_pictures_of_parts hin, fun i hi => ?_, fun part hpart x hx k hk => ?_⟩
  · obtain ⟨r, hr, hi⟩ := List.mem_flatMap.1 hi
    obtain ⟨x, hx, hplace⟩ := (hin r hr).places i hi
    exact ⟨r.1, List.mem_map_of_mem hr, x, hx, hplace⟩
  · obtain ⟨r, hr, rfl⟩ := List.mem_map.1 hpart
    obtain ⟨before, after, rfl⟩ := List.append_of_mem hr
    rw [countP_flatMap_of_others fun r' hr' i hi => ?_]
    · exact (hin r hr).counts x hx k hk
    · rw [List.map_append, List.map_cons, List.nodup_middle, ← List.map_append] at hnodup
      have hne : r'.1.name ≠ r.1.name := fun he =>
        (List.nodup_cons.1 hnodup).1 (he ▸ List.mem_map_of_mem (f := fun r => r.1.name) hr')
      have hmem : r' ∈ before ++ r :: after :=
        (List.mem_append.1 hr').elim (List.mem_append_left _) fun h =>
          List.mem_append_right _ (List.mem_cons_of_mem r h)
      obtain ⟨y, -, hplace, -⟩ := (hin r' hmem).places i hi
      simp [hplace, hne]

namespace Document

/-! ### Documents at hand -/

/-- The image markers of the merged document that ask for images, each with the place of its paragraph. -/
def mergedImages (settings : Settings) (c : Context) (d : Document) :
    Option (List (Picture × Option (Text × Path))) :=
  (d.merge settings c).toOption.map fun m => m.images.map fun i => (i.picture, i.place)

theorem exists_of_mergedImages {xs : List (Picture × Option (Text × Path))}
    (h : mergedImages settings c d = some xs) :
    ∃ m, d.merge settings c = .ok m ∧ m.images.map (fun i => (i.picture, i.place)) = xs := by
  obtain ⟨m, hm, he⟩ := Option.map_eq_some_iff.1 h
  cases hr : d.merge settings c with
  | error e =>
    rw [hr] at hm
    cases hm
  | ok m' =>
    rw [hr] at hm
    obtain rfl := Option.some.inj hm
    exact ⟨_, rfl, he⟩

/-- A page with a logo and a table of photos, each with a name beside it. -/
def catalogue : Document where
  parts := [⟨"body", [
    Node.ofText (Marker.enclose "IMAGE:logo"),
    .table [] [.row [] [
      .cell [] [Node.ofText (Marker.enclose "#Items" ++ Marker.enclose "IMAGE:photo")],
      .cell [] [Node.ofText (Marker.enclose "name" ++ Marker.enclose "/Items")]]]]⟩]

/-- Two items, tea and milk. -/
def catalogueData : Context where
  data := [("Items", .list [.record [("name", .text "tea")], .record [("name", .text "milk")]])]

theorem catalogue_isPictured : catalogue.IsPictured catalogueData := by
  have hbefore : ∀ inner ∈ ["IMAGE:logo".toList, "#Items", "IMAGE:photo", "name", "/Items"], ∀ t,
      pictured.Template t → pictured.Template (Marker.enclose inner ++ t) := by
    have hmarkers : ∀ inner ∈ ["IMAGE:logo".toList, "#Items", "IMAGE:photo", "name", "/Items"],
        (Marker.Simple inner ∧ Text.FreeOf Marker.closing inner ∧ Section.Span.placeholderStart ∉ inner ∧
          (FieldSpec.parse inner).default = none) ∧ '\n' ∉ inner := by
      decide +kernel
    intro inner hi t ht
    obtain ⟨⟨hs, hf, hp, hd⟩, hn⟩ := hmarkers inner hi
    refine Section.Dialect.template_enclose_append hf ⟨⟨hs, hf, hp, fun _ u hu => ?_⟩, fun _ => hn⟩ ht
    rw [hd] at hu
    cases hu
  have hlogo : pictured.Template (Marker.enclose "IMAGE:logo") :=
    hbefore "IMAGE:logo" (by simp) [] Section.Dialect.template_nil
  have hend : pictured.Template (Marker.enclose "/Items") :=
    hbefore "/Items" (by simp) [] Section.Dialect.template_nil
  have hname : pictured.Template (Marker.enclose "name" ++ Marker.enclose "/Items") :=
    hbefore "name" (by simp) _ hend
  have hphoto : pictured.Template (Marker.enclose "#Items" ++ Marker.enclose "IMAGE:photo") :=
    hbefore "#Items" (by simp) _ (hbefore "IMAGE:photo" (by simp) [] Section.Dialect.template_nil)
  have hrow : pictured.Template (Marker.enclose "#Items" ++ (Marker.enclose "IMAGE:photo" ++
      (['\t'] ++ (Marker.enclose "name" ++ Marker.enclose "/Items")))) :=
    hbefore "#Items" (by simp) _ (hbefore "IMAGE:photo" (by simp) _
      (Section.Dialect.template_plain_append (by decide : Text.AllPlain ['\t']) hname))
  intro part hpart left hleft
  obtain rfl := List.mem_singleton.1 hpart
  obtain ⟨log, hleft⟩ := hleft
  have hkeep : (Conditional.resolveNodes catalogueData.resolve (catalogue.parts.flatMap (·.nodes)) :
      Merging PendingImage (List Node)) = Except.ok (catalogue.parts.flatMap (·.nodes), {}) := by
    with_unfolding_all rfl
  obtain ⟨rfl, -⟩ := Prod.mk.inj (Except.ok.inj (hleft.symm.trans hkeep))
  refine ⟨⟨rfl, hlogo⟩, ⟨rfl, ⟨⟨rfl, hrow, ⟨hphoto, False.elim, ⟨rfl, hphoto⟩, trivial⟩,
    ⟨hname, False.elim, ⟨rfl, hname⟩, trivial⟩, trivial⟩, trivial⟩, fun row hr q hq => ?_⟩, trivial⟩
  obtain rfl := List.mem_singleton.1 (Section.repeatedRows_subset _ hr)
  cases hq

/-- The logo has its place, and each photo the cell of its item. -/
theorem merge_catalogue_images : ∃ m, catalogue.merge {} catalogueData = .ok m ∧
    m.images.map (fun i => (i.picture, i.place)) =
      [((Marker.enclose "IMAGE:photo", "photo".toList), some ("body".toList, [1, 0, 0, 0])),
        ((Marker.enclose "IMAGE:photo", "photo".toList), some ("body".toList, [1, 1, 0, 0])),
        ((Marker.enclose "IMAGE:logo", "logo".toList), some ("body".toList, [0]))] ∧
    (m.images.map PlacedImage.picture).Perm (m.document.paragraphs.flatMap fun q => pictures q.2.text) ∧
    (∀ i ∈ m.images, ∃ part ∈ m.document.parts, ∃ x ∈ placedParagraphs part.nodes,
      i.place = some (part.name, x.1) ∧ i.picture ∈ pictures x.2.text) ∧
    ∀ part ∈ m.document.parts, ∀ x ∈ placedParagraphs part.nodes, ∀ k, part.Unshared x k →
      m.images.countP (fun i => i.place = some (part.name, x.1) ∧ i.picture = k) =
        (pictures x.2.text).count k := by
  have himages : mergedImages {} catalogueData catalogue =
      some [((Marker.enclose "IMAGE:photo", "photo".toList), some ("body".toList, [1, 0, 0, 0])),
        ((Marker.enclose "IMAGE:photo", "photo".toList), some ("body".toList, [1, 1, 0, 0])),
        ((Marker.enclose "IMAGE:logo", "logo".toList), some ("body".toList, [0]))] := by
    decide +kernel
  obtain ⟨m, hm, hplaces⟩ := exists_of_mergedImages himages
  have hdata : catalogueData.Calm := ⟨by decide, by decide⟩
  exact ⟨m, hm, hplaces, merge_images_in_place (by decide) hdata catalogue_isPictured (by decide) hm⟩

/-- The same image marker in two cells of a repeated row: both images go to the first cell. -/
example :
    mergedImages {} { data := [("A", .list [.record []])] } ⟨[⟨"body", [.table [] [.row [] [
      .cell [] [Node.ofText (Marker.enclose "#A" ++ Marker.enclose "IMAGE:x")],
      .cell [] [Node.ofText (Marker.enclose "IMAGE:x" ++ Marker.enclose "/A")]]]]⟩]⟩ =
      some [((Marker.enclose "IMAGE:x", "x".toList), some ("body".toList, [0, 0, 0, 0])),
        ((Marker.enclose "IMAGE:x", "x".toList), some ("body".toList, [0, 0, 0, 0]))] := by
  decide +kernel

end Document
end MailMerge
