import MailMerge.Proofs.Section.Pictures
import MailMerge.Proofs.Tree.Placed

/-!
# Accounts of images

The images that stages of a merge report are accounted for by the tree that the stages make. The images
of a paragraph are asked for by its markers and placed in it. In a row that a section has produced, they
are asked for by the markers of all its paragraphs, and each is placed in one that has its marker. The
images of a list are those of its items, seen from the list.

**`Node.reports_rewriteOpen`**: rewriting the open paragraphs keeps the accounts.

**`Node.accounts_breakPagesIn`**: so does making page breaks.
-/

namespace MailMerge

open Merging (Reports reports_pure)
open Section (pictures)

/-- The image marker that asks for the image. -/
def PendingImage.picture (i : PendingImage) : Picture :=
  i.request.picture

/-! ## Lists -/

section Lists

variable {α β : Type} {A B : α → List PendingImage → Prop} {xs ys : List α} {is js : List PendingImage}
  {index count : Nat} {x : α}

/-- The images, in some order, are those of the items from an index on: each item has its images, seen
from the list. -/
def Listed (A : α → List PendingImage → Prop) : Nat → List α → List PendingImage → Prop
  | _, [], is => is = []
  | index, x :: xs, is =>
    ∃ here later, is.Perm (here.map (PendingImage.under index) ++ later) ∧ A x here ∧
      Listed A (index + 1) xs later

theorem Listed.perm (h : Listed A index xs is) (hp : js.Perm is) : Listed A index xs js := by
  cases xs with
  | nil =>
    obtain rfl : is = [] := h
    exact List.perm_nil.1 hp
  | cons x xs =>
    obtain ⟨here, later, his, hx, hxs⟩ := h
    exact ⟨here, later, hp.trans his, hx, hxs⟩

theorem Listed.cons (h : A x is) (hs : Listed A (index + 1) xs js) :
    Listed A index (x :: xs) (is.map (PendingImage.under index) ++ js) :=
  ⟨is, js, .refl _, h, hs⟩

theorem listed_singleton (h : A x is) : Listed A index [x] (is.map (PendingImage.under index)) := by
  have hcons : Listed A index [x] (is.map (PendingImage.under index) ++ []) := Listed.cons h rfl
  rwa [List.append_nil] at hcons

theorem Listed.append (h : Listed A index xs is) (h' : Listed A (index + xs.length) ys js) :
    Listed A index (xs ++ ys) (is ++ js) := by
  induction xs generalizing index is with
  | nil =>
    obtain rfl : is = [] := h
    exact h'
  | cons x xs ih =>
    obtain ⟨here, later, his, hx, hxs⟩ := h
    rw [List.length_cons, Nat.add_comm xs.length, ← Nat.add_assoc] at h'
    refine (Listed.cons hx (ih hxs h')).perm ?_
    rw [← List.append_assoc]
    exact his.append_right js

theorem Listed.shift (h : Listed A index xs is) :
    Listed A (index + count) xs (is.map (PendingImage.shift count)) := by
  induction xs generalizing index is with
  | nil =>
    obtain rfl : is = [] := h
    rfl
  | cons x xs ih =>
    obtain ⟨here, later, his, hx, hxs⟩ := h
    have hlater := ih hxs
    rw [Nat.add_right_comm] at hlater
    refine (Listed.cons hx hlater).perm ?_
    have hunder : (here.map (PendingImage.under index)).map (PendingImage.shift count) =
        here.map (PendingImage.under (index + count)) := by
      rw [List.map_map]
      refine List.map_congr_left fun i _ => ?_
      simp only [Function.comp, PendingImage.shift, PendingImage.under, Option.map_map]
      rfl
    rw [← hunder, ← List.map_append]
    exact his.map _

theorem Listed.imp (h : Listed A index xs is) (hab : ∀ x ∈ xs, ∀ is, A x is → B x is) :
    Listed B index xs is := by
  induction xs generalizing index is with
  | nil => exact h
  | cons x xs ih =>
    obtain ⟨here, later, his, hx, hxs⟩ := h
    exact ⟨here, later, his, hab x List.mem_cons_self here hx,
      ih hxs fun y hy => hab y (List.mem_cons_of_mem x hy)⟩

theorem listed_map {f : β → α} {zs : List β} :
    Listed A index (zs.map f) is ↔ Listed (fun z => A (f z)) index zs is := by
  induction zs generalizing index is with
  | nil => exact Iff.rfl
  | cons z zs ih => simp only [List.map_cons, Listed, ih]

/-- Items without images. -/
theorem listed_of_none (h : ∀ x ∈ xs, A x []) : Listed A index xs [] := by
  induction xs generalizing index with
  | nil => rfl
  | cons x xs ih =>
    exact Listed.cons (h x List.mem_cons_self) (ih fun y hy => h y (List.mem_cons_of_mem x hy))

/-! ## Steps for lists -/

/-- A step for the first item and a step for the others add images to those that the items have. -/
theorem reports_cons {step : Merging PendingImage β} {steps : Merging PendingImage (List β)}
    {B : β → List PendingImage → Prop} {here later : List PendingImage}
    (his : is.Perm (here.map (PendingImage.under index) ++ later))
    (hstep : step.Reports fun y js => B y (here ++ js))
    (hsteps : steps.Reports fun ys js => Listed B (index + 1) ys (later ++ js)) :
    Reports (fun (ys : List β) js => Listed B index ys (is ++ js)) (do
      let y ← step.under index
      let ys ← steps
      return y :: ys) := by
  refine (hstep.mapImages (Q := fun y js => ∃ made, B y (here ++ made) ∧
    js = made.map (PendingImage.under index)) fun y made hy => ⟨made, hy, rfl⟩).bind ?_
  rintro y _ ⟨made, hy, rfl⟩
  refine hsteps.map fun ys js hys => (Listed.cons hy hys).perm ?_
  rw [List.map_append]
  refine (his.append_right _).trans ?_
  simp only [List.append_assoc]
  exact (List.perm_append_comm_assoc later (made.map (PendingImage.under index)) js).append_left _

/-- A step for each item adds images to those that the item has. -/
theorem reports_zipIdx {f : α → Merging PendingImage β} {B : β → List PendingImage → Prop}
    (hf : ∀ x ∈ xs, ∀ is, A x is → (f x).Reports fun y js => B y (is ++ js)) (h : Listed A index xs is) :
    Reports (fun (ys : List β) js => Listed B index ys (is ++ js))
      ((xs.zipIdx index).mapM fun (x, i) => (f x).under i) := by
  induction xs generalizing index is with
  | nil =>
    obtain rfl : is = [] := h
    rw [List.zipIdx_nil, List.mapM_nil]
    exact reports_pure rfl
  | cons x xs ih =>
    obtain ⟨here, later, his, hx, hxs⟩ := h
    rw [List.zipIdx_cons, List.mapM_cons]
    exact reports_cons his (hf x List.mem_cons_self here hx)
      (ih (fun z hz => hf z (List.mem_cons_of_mem x hz)) hxs)

theorem reports_addEach {f : α → Merging PendingImage β} {B : β → List PendingImage → Prop}
    (hf : ∀ x ∈ xs, ∀ is, A x is → (f x).Reports fun y js => B y (is ++ js)) (h : Listed A 0 xs is) :
    Reports (fun (ys : List β) js => Listed B 0 ys (is ++ js)) (Merging.forEach f xs) :=
  reports_zipIdx hf h

theorem reports_forEach {f : α → Merging PendingImage β} {B : β → List PendingImage → Prop}
    (hf : ∀ x ∈ xs, (f x).Reports B) :
    Reports (fun (ys : List β) js => Listed B 0 ys js) (Merging.forEach f xs) := by
  have hnone : Listed (fun _ is => is = []) 0 xs [] := listed_of_none fun _ _ => rfl
  refine reports_addEach ?_ hnone
  rintro x hx _ rfl
  exact hf x hx

/-- A step for a list of one item. -/
theorem reports_single {step : Merging PendingImage β} {g : β → α} (h : step.Reports fun y js => A (g y) js) :
    Reports (Listed A 0) (do
      let y ← step.under 0
      return [g y]) := by
  refine (h.mapImages (Q := fun y js => Listed A 0 [g y] js) fun y js hy => listed_singleton hy).bind
    fun y js hy => reports_pure ?_
  rwa [List.append_nil]

theorem reports_followedBy {A : Node → List PendingImage → Prop} {x y : Merging PendingImage (List Node)}
    (hx : x.Reports (Listed A 0)) (hy : y.Reports (Listed A 0)) : (x.followedBy y).Reports (Listed A 0) := by
  unfold Merging.followedBy
  refine hx.bind fun ns is hns => ?_
  refine (hy.mapImages (Q := fun ms js => Listed A (0 + ns.length) ms js) fun ms js hms => hms.shift).bind
    fun ms js hms => reports_pure ?_
  rw [List.append_nil]
  exact hns.append hms

theorem reports_setsFrom {γ : Type} {f : γ × Nat → Merging PendingImage (List α)} {size : Nat}
    {cs : List γ} {first : Nat}
    (hf : ∀ r ∈ cs.zipIdx first, (f r).Reports fun ys js => ys.length = size ∧ Listed A 0 ys js) :
    Reports (fun (sets : List (List α)) js => Listed A (first * size) sets.flatten js)
      ((cs.zipIdx first).mapM fun r => (f r).shifted (r.2 * size)) := by
  induction cs generalizing first with
  | nil =>
    rw [List.zipIdx_nil, List.mapM_nil]
    exact reports_pure rfl
  | cons c cs ih =>
    rw [List.zipIdx_cons, List.forall_mem_cons] at hf
    rw [List.zipIdx_cons, List.mapM_cons]
    refine (hf.1.mapImages (Q := fun ys js => ys.length = size ∧ Listed A (0 + first * size) ys js)
      fun ys js hys => ⟨hys.1, hys.2.shift⟩).bind ?_
    rintro ys js ⟨hlen, hys⟩
    refine (ih hf.2).map fun sets js' hsets => ?_
    rw [Nat.zero_add] at hys
    rw [Nat.succ_mul, ← hlen] at hsets
    subst hlen
    exact hys.append hsets

/-- Sets of as many items each, put together. -/
theorem reports_sets {γ : Type} {f : γ × Nat → Merging PendingImage (List α)} {size : Nat} {cs : List γ}
    (hf : ∀ r ∈ cs.zipIdx, (f r).Reports fun ys js => ys.length = size ∧ Listed A 0 ys js) :
    Reports (Listed A 0) (do
      let sets ← cs.zipIdx.mapM fun r => (f r).shifted (r.2 * size)
      return sets.flatten) := by
  refine (reports_setsFrom hf).bind fun sets js h => reports_pure ?_
  rwa [Nat.zero_mul, ← List.append_nil js] at h

end Lists

/-! ## Claims -/

/-- The images are asked for by the image markers of the paragraphs, and each is placed in one that has
its marker. -/
structure Claims (ps : List (Path × Paragraph)) (is : List PendingImage) : Prop where
  markers : (is.map PendingImage.picture).Perm (ps.flatMap fun x => pictures x.2.text)
  places : ∀ i ∈ is, ∃ x ∈ ps, i.place = some x.1 ∧ i.picture ∈ pictures x.2.text

/-- The images of a single paragraph. -/
def Own (p : Paragraph) (is : List PendingImage) : Prop :=
  Claims [([], p)] is

theorem Claims.eq_nil {ps : List (Path × Paragraph)} {is : List PendingImage} (hc : Claims ps is)
    (h : ∀ x ∈ ps, pictures x.2.text = []) : is = [] := by
  have hm := hc.markers
  rw [List.flatMap_eq_nil_iff.2 h] at hm
  exact List.map_eq_nil_iff.1 hm.eq_nil

/-- Paragraphs without image markers count for nothing. -/
theorem Claims.filter {ps : List (Path × Paragraph)} {is : List PendingImage} (h : Claims ps is)
    {keep : Path × Paragraph → Bool} (hk : ∀ x ∈ ps, keep x = false → pictures x.2.text = []) :
    Claims (ps.filter keep) is where
  markers := by
    suffices he : ((ps.filter keep).flatMap fun x => pictures x.2.text) =
        ps.flatMap fun x => pictures x.2.text by
      rw [he]
      exact h.markers
    clear h
    induction ps with
    | nil => rfl
    | cons x ps ih =>
      have ih := ih fun y hy => hk y (List.mem_cons_of_mem x hy)
      by_cases hx : keep x
      · rw [List.filter_cons_of_pos hx, List.flatMap_cons, ih, List.flatMap_cons]
      · have hnone := hk x List.mem_cons_self (by simpa using hx)
        rw [List.filter_cons_of_neg hx, ih, List.flatMap_cons, hnone, List.nil_append]
  places := by
    intro i hi
    obtain ⟨x, hx, hplace, hm⟩ := h.places i hi
    refine ⟨x, List.mem_filter.2 ⟨hx, ?_⟩, hplace, hm⟩
    by_contra hn
    rw [hk x hx (by simpa using hn)] at hm
    cases hm

/-- Claims among the nodes inside a node. -/
theorem Claims.under {ps : List (Path × Paragraph)} {is : List PendingImage} (h : Claims ps is)
    (index : Nat) :
    Claims (ps.map fun x => (index :: x.1, x.2)) (is.map (PendingImage.under index)) where
  markers := by
    rw [List.map_map, List.flatMap_map]
    exact h.markers
  places := by
    rintro _ hj
    obtain ⟨i, hi, rfl⟩ := List.mem_map.1 hj
    obtain ⟨x, hx, hplace, hm⟩ := h.places i hi
    refine ⟨_, List.mem_map.2 ⟨x, hx, rfl⟩, ?_, hm⟩
    rw [PendingImage.under, hplace]
    rfl

/-! ## Trees -/

namespace Node

variable {O Q : Paragraph → List PendingImage → Prop} {closed rendered : Bool} {level : Level}
  {p : Paragraph} {attributes : Text} {ns : List Node} {is : List PendingImage} {index : Nat}

/-- What is known of the images of a paragraph, as a closed or as an open one. -/
def Has (O : Paragraph → List PendingImage → Prop) (closed : Bool) (p : Paragraph) (is : List PendingImage) :
    Prop :=
  if closed then Own p is else O p is

mutual

/-- The images are those of the node at a level, seen from the node: of its open paragraphs by the given
relation, and of those that are closed each has its own. The paragraphs of a row that a section has
produced may also have them together. -/
def Accounts (O : Paragraph → List PendingImage → Prop) :
    (closed : Bool) → Level → Node → List PendingImage → Prop
  | closed, .blocks, paragraph p rendered, is => Has O (closed || rendered) p is
  | closed, .blocks, table _ rows rendered, is => AccountsFrom O (closed || rendered) .rows 0 rows is
  | closed, .rows, row attributes cells rendered, is =>
    AccountsFrom O (closed || rendered) .cells 0 cells is ∨
      rendered = true ∧ Claims (paragraphsAt [] .rows (row attributes cells rendered)) is
  | closed, .cells, cell _ children _, is => AccountsFrom O closed .blocks 0 children is
  | _, _, _, is => is = []

/-- The images are those of the nodes of a list from an index on, seen from the list. -/
def AccountsFrom (O : Paragraph → List PendingImage → Prop) (closed : Bool) (level : Level) :
    (index : Nat) → List Node → List PendingImage → Prop
  | _, [], is => is = []
  | index, n :: ns, is => ∃ here later, is.Perm (here.map (PendingImage.under index) ++ later) ∧
      Accounts O closed level n here ∧ AccountsFrom O closed level (index + 1) ns later

end

theorem accountsFrom_iff : AccountsFrom O closed level index ns is ↔
    Listed (Accounts O closed level) index ns is := by
  induction ns generalizing index is with
  | nil => exact Iff.rfl
  | cons n ns ih => simp only [AccountsFrom, Listed, ih]

theorem has_of_closed (p : Paragraph) (is : List PendingImage) (h : Has O true p is) : Has Q true p is :=
  h

theorem has_or {closed' : Bool} (h : ∀ p is, Has O closed p is → Has Q closed' p is) (rendered : Bool)
    (p : Paragraph) (is : List PendingImage) (hp : Has O (closed || rendered) p is) :
    Has Q (closed' || rendered) p is := by
  cases rendered with
  | true =>
    rw [Bool.or_true] at hp ⊢
    exact hp
  | false =>
    rw [Bool.or_false] at hp ⊢
    exact h p is hp

mutual

/-- What is known of the images of paragraphs may be weakened. What was open may count as closed from now
on, and the other way round, where that allows it. -/
theorem Accounts.imp : ∀ (level : Level) (n : Node) {closed closed' : Bool} {is : List PendingImage},
    (∀ p is, Has O closed p is → Has Q closed' p is) → Accounts O closed level n is →
      Accounts Q closed' level n is
  | .blocks, .paragraph p rendered, _, _, is, h, hp => has_or h rendered p is hp
  | .blocks, .table _ rows rendered, _, _, _, h, hrows =>
    AccountsFrom.imp .rows rows (has_or h rendered) hrows
  | .rows, .row _ cells rendered, _, _, _, h, hcells =>
    hcells.imp_left (AccountsFrom.imp .cells cells (has_or h rendered))
  | .cells, .cell _ children _, _, _, _, h, hch => AccountsFrom.imp .blocks children h hch
  | .blocks, .row .., _, _, _, _, hi | .blocks, .cell .., _, _, _, _, hi
  | .blocks, .pageBreak _, _, _, _, _, hi | .blocks, .verbatim _, _, _, _, _, hi
  | .rows, .paragraph .., _, _, _, _, hi | .rows, .table .., _, _, _, _, hi
  | .rows, .cell .., _, _, _, _, hi | .rows, .pageBreak _, _, _, _, _, hi
  | .rows, .verbatim _, _, _, _, _, hi | .cells, .paragraph .., _, _, _, _, hi
  | .cells, .table .., _, _, _, _, hi | .cells, .row .., _, _, _, _, hi
  | .cells, .pageBreak _, _, _, _, _, hi | .cells, .verbatim _, _, _, _, _, hi => hi

theorem AccountsFrom.imp : ∀ (level : Level) (ns : List Node) {closed closed' : Bool} {index : Nat}
    {is : List PendingImage}, (∀ p is, Has O closed p is → Has Q closed' p is) →
      AccountsFrom O closed level index ns is → AccountsFrom Q closed' level index ns is
  | _, [], _, _, _, _, _, hi => hi
  | level, n :: ns, _, _, _, _, h, ⟨here, later, his, hn, hns⟩ =>
    ⟨here, later, his, Accounts.imp level n h hn, AccountsFrom.imp level ns h hns⟩

end

/-- Open paragraphs that have their own images may be closed. -/
theorem Accounts.close {n : Node} (h : Accounts Own false level n is) : Accounts O true level n is := by
  have hown : ∀ p is, Has Own false p is → Has O true p is := fun p is hp => hp
  exact h.imp level n hown

/-- A mark on a row changes nothing where all is closed. -/
theorem Accounts.markRendered {n : Node} (h : Accounts O true .rows n is) :
    Accounts O true .rows n.markRendered is := by
  cases n with
  | row attributes cells rendered => exact h.imp_right fun hc => ⟨rfl, hc.2⟩
  | _ => exact h

/-! ## Rewriting open paragraphs -/

section Rewriting

variable {f : Paragraph → Merging PendingImage Paragraph}

mutual

theorem reports_rewriteOpenIn (hf : ∀ p is, O p is → (f p).Reports fun q js => Q q (is ++ js)) :
    ∀ (level : Level) (n : Node) (is : List PendingImage), Accounts O false level n is →
      Reports (fun m js => Accounts Q false level m (is ++ js)) (rewriteOpenIn f level n)
  | .blocks, .paragraph p false, is, hp => by
    rw [rewriteOpenIn]
    refine (hf p is hp).bind fun q js hq => reports_pure ?_
    rwa [List.append_nil]
  | .blocks, .table attributes rows false, is, hrows => by
    rw [rewriteOpenIn]
    refine (reports_rewriteOpen hf .rows 0 rows is hrows).bind fun rows' js h => reports_pure ?_
    rwa [List.append_nil]
  | .rows, .row attributes cells false, is, hcells => by
    rw [rewriteOpenIn]
    have hcells' := hcells.resolve_right fun h => Bool.noConfusion h.1
    refine (reports_rewriteOpen hf .cells 0 cells is hcells').bind fun cells' js h => reports_pure ?_
    rw [List.append_nil]
    exact .inl h
  | .cells, .cell attributes children rendered, is, hch => by
    rw [rewriteOpenIn]
    refine (reports_rewriteOpen hf .blocks 0 children is hch).bind fun children' js h => reports_pure ?_
    rwa [List.append_nil]
  | .blocks, .paragraph p true, is, hp => by
    rw [rewriteOpenIn]
    · refine reports_pure ?_
      rw [List.append_nil]
      exact hp
    all_goals simp
  | .blocks, .table _ rows true, is, hrows => by
    rw [rewriteOpenIn]
    · refine reports_pure ?_
      rw [List.append_nil]
      exact AccountsFrom.imp .rows rows has_of_closed hrows
    all_goals simp
  | .rows, .row _ cells true, is, h => by
    rw [rewriteOpenIn]
    · refine reports_pure ?_
      rw [List.append_nil]
      exact h.imp_left (AccountsFrom.imp .cells cells has_of_closed)
    all_goals simp
  | .blocks, .row .., is, h | .blocks, .cell .., is, h | .blocks, .pageBreak _, is, h
  | .blocks, .verbatim _, is, h | .rows, .paragraph .., is, h | .rows, .table .., is, h
  | .rows, .cell .., is, h | .rows, .pageBreak _, is, h | .rows, .verbatim _, is, h
  | .cells, .paragraph .., is, h | .cells, .table .., is, h | .cells, .row .., is, h
  | .cells, .pageBreak _, is, h | .cells, .verbatim _, is, h => by
    simp only [rewriteOpenIn]
    refine reports_pure ?_
    rwa [List.append_nil]

theorem reports_rewriteOpen (hf : ∀ p is, O p is → (f p).Reports fun q js => Q q (is ++ js)) :
    ∀ (level : Level) (index : Nat) (ns : List Node) (is : List PendingImage),
      AccountsFrom O false level index ns is →
      Reports (fun ms js => AccountsFrom Q false level index ms (is ++ js)) (rewriteOpen f level index ns)
  | level, index, [], is, h => by
    rw [rewriteOpen]
    refine reports_pure ?_
    rwa [List.append_nil]
  | level, index, n :: ns, is, ⟨here, later, his, hn, hns⟩ => by
    rw [rewriteOpen]
    refine (reports_cons his (reports_rewriteOpenIn hf level n here hn) ?_).mono
      fun ms js h => accountsFrom_iff.2 h
    exact (reports_rewriteOpen hf level (index + 1) ns later hns).mono fun ms js h => accountsFrom_iff.1 h

end

end Rewriting

/-! ## Page breaks -/

/-- A lone page break marker is no image marker. -/
theorem pictures_of_lonePageBreak {t : Text} (h : Marker.isLonePageBreak t) : pictures t = [] := by
  obtain ⟨m, hm, hk⟩ := (Option.any_eq_true ..).1 h
  obtain ⟨inner, hfree, htrim, rfl⟩ := Marker.trim_of_lone? hm
  obtain ⟨a, b, ht, ha, hb⟩ := Text.exists_trim t
  have hinners : Section.inners t = [inner] := by
    rw [ht, htrim, Section.inners,
      Marker.tokens_append_plain _ fun c hc => Text.ne_brace_of_isBlank (hb c hc),
      Marker.tokens_plain_append fun c hc => (Text.ne_brace_of_isBlank (ha c hc)).1]
    simp only [List.filterMap_append, Section.filterMap_charTokens, List.nil_append, List.append_nil]
    exact Section.inners_enclose hfree
  have hkind : (Marker.classify inner).kind = .pageBreak := of_decide_eq_true hk
  rw [Section.pictures_eq, hinners, List.filterMap_cons_none]
  · rfl
  · rw [Section.picture?, hkind]
    rfl

mutual

/-- **Page breaks keep the accounts.** -/
theorem accounts_breakPagesIn : ∀ (level : Level) (n : Node) {closed : Bool} {is : List PendingImage},
    Accounts Own closed level n is → Accounts Own closed level (breakPagesIn level n) is
  | .blocks, .paragraph p rendered, closed, is, h => by
    rw [breakPagesIn]
    split
    · next hp =>
      have hown : Own p is := by simpa [Accounts, Has] using h
      exact hown.eq_nil (List.forall_mem_singleton.2 (pictures_of_lonePageBreak hp))
    · exact h
  | .blocks, .table _ rows _, _, _, h => accountsFrom_breakPages .rows rows h
  | .rows, .row attributes cells rendered, _, _, h => by
    refine Or.imp (accountsFrom_breakPages .cells cells) (fun ⟨hr, hc⟩ => ⟨hr, ?_⟩) h
    have hbroken := paragraphsAt_breakPagesIn .rows (row attributes cells rendered) []
    rw [breakPagesIn] at hbroken
    rw [hbroken]
    exact hc.filter fun x _ hx => pictures_of_lonePageBreak (by simpa using hx)
  | .cells, .cell _ children _, _, _, h => accountsFrom_breakPages .blocks children h
  | .blocks, .row .., _, _, h | .blocks, .cell .., _, _, h | .blocks, .pageBreak _, _, _, h
  | .blocks, .verbatim _, _, _, h | .rows, .paragraph .., _, _, h | .rows, .table .., _, _, h
  | .rows, .cell .., _, _, h | .rows, .pageBreak _, _, _, h | .rows, .verbatim _, _, _, h
  | .cells, .paragraph .., _, _, h | .cells, .table .., _, _, h | .cells, .row .., _, _, h
  | .cells, .pageBreak _, _, _, h | .cells, .verbatim _, _, _, h => h

theorem accountsFrom_breakPages : ∀ (level : Level) (ns : List Node) {closed : Bool} {index : Nat}
    {is : List PendingImage}, AccountsFrom Own closed level index ns is →
      AccountsFrom Own closed level index (breakPages level ns) is
  | _, [], _, _, _, h => h
  | level, n :: ns, _, _, _, ⟨here, later, his, hn, hns⟩ =>
    ⟨here, later, his, accounts_breakPagesIn level n hn, accountsFrom_breakPages level ns hns⟩

end

end Node

end MailMerge
