import MailMerge.Proofs.Conditional.Agreement
import MailMerge.Proofs.Conditional.Nodes
import MailMerge.Proofs.Marker.Scanned
import MailMerge.Proofs.Text.Cut
import MailMerge.Proofs.Tree.Writing

/-!
# What conditionals of whole nodes keep

Conditionals of whole nodes drop nodes and change none. So what holds of the paragraphs of a tree
holds of the paragraphs that are kept, and evaluations that agree on the conditions in a tree keep
the same nodes.

**`agree_resolveNodes`**: the same nodes are kept, and their paragraphs are paragraphs of before.
-/

namespace MailMerge

open Marker (tokens charTokens)
open Merging (Agree)

/-! ## Lone markers -/

namespace Marker

/-- But for blanks around it, a lone marker is its text. -/
theorem trim_of_lone? {t : Text} {m : Marker} (h : lone? t = some m) :
    ∃ inner, Text.FreeOf closing inner ∧ Text.trim t = enclose inner ∧ m = ofInner inner 0 := by
  obtain ⟨hscan, htext⟩ := lone?_eq_some_iff.1 h
  rw [scan, segments] at hscan
  split at hscan
  · cases hscan
  · next gap inner after hnext =>
    obtain ⟨rfl, -⟩ : ofInner inner (0 + gap.length) = m ∧ _ := List.cons.inj hscan
    obtain ⟨-, hfree, ht⟩ := next?_eq_some_iff.1 hnext
    have htrim : Text.trim t = enclose inner := htext.symm
    have hgap : gap = [] := by
      have hlen := congrArg List.length (htrim.symm.trans ht)
      simp only [List.length_append] at hlen
      exact List.length_eq_zero_iff.1 (by omega)
    subst hgap
    exact ⟨inner, hfree, htrim, rfl⟩

/-- A lone marker is the only token of its text beside blanks. -/
theorem exists_of_lone? {t : Text} {m : Marker} (h : lone? t = some m) :
    ∃ inner, .marker inner ∈ tokens t ∧ m = ofInner inner 0 := by
  obtain ⟨inner, hfree, htrim, hm⟩ := trim_of_lone? h
  obtain ⟨a, b, ht, ha, hb⟩ := Text.exists_trim t
  refine ⟨inner, ?_, hm⟩
  rw [ht, List.append_assoc, tokens_plain_append fun c hc => (Text.ne_brace_of_isBlank (ha c hc)).1,
    htrim, tokens_enclose hfree]
  simp

/-- There is only one pair of closing braces in the text of a lone marker. -/
theorem lone?_eq_none_of_closings (a b c : Text) :
    lone? (a ++ closing ++ b ++ closing ++ c) = none := by
  cases h : lone? (a ++ closing ++ b ++ closing ++ c) with
  | none => rfl
  | some m =>
    exfalso
    obtain ⟨inner, hfree, htrim, -⟩ := trim_of_lone? h
    obtain ⟨l, r, ht, hl, hr⟩ := Text.exists_trim (a ++ closing ++ b ++ closing ++ c)
    -- The first closing braces are those of the marker, so only blanks come after them.
    have hfirst : Text.FreeOf closing (l ++ (opening ++ inner)) := by
      refine Text.FreeOf.append_left (fun h => (Text.ne_brace_of_isBlank (hl '}' h)).2 rfl) ?_
      exact Text.FreeOf.append_left (by simp [opening]) hfree
    have hcut : Text.cutFirst? closing (a ++ closing ++ (b ++ closing ++ c)) =
        some (l ++ (opening ++ inner), r) := by
      refine Text.cutFirst?_eq_some_iff.2 ⟨hfirst, ?_⟩
      rw [htrim] at ht
      simpa [enclose] using ht
    obtain ⟨d, hd⟩ := Text.prefix_of_cutFirst? hcut
    have hrest : closing ++ r = d ++ closing ++ b ++ (closing ++ c) := by
      have := Text.eq_append_of_cutFirst? hcut
      rw [← hd] at this
      simpa using this.symm
    have hr' : r = (d ++ closing ++ b).drop 2 ++ (closing ++ c) := by
      have hlen : 2 ≤ (d ++ closing ++ b).length := by
        simp only [closing, List.length_append, List.length_cons]
        omega
      rw [← List.drop_append_of_le_length hlen, ← hrest]
      rfl
    have hbrace : '}' ∈ r := by
      rw [hr']
      simp [closing]
    exact (Text.ne_brace_of_isBlank (hr _ hbrace)).2 rfl

end Marker

/-! ## Trees -/

namespace Node

mutual

/-- The node at a level is part of a template: nothing in it has been rendered, tables hold rows and
rows hold cells, and the texts of paragraphs and of rows have the given properties. -/
def Whole (P Q : Text → Prop) : Level → Node → Prop
  | .blocks, paragraph p rendered => rendered = false ∧ P p.text
  | .blocks, table _ rows rendered => rendered = false ∧ AllWhole P Q .rows rows
  | .blocks, pageBreak _ => True
  | .blocks, verbatim _ => True
  | .rows, row attributes cells rendered =>
    rendered = false ∧ Q (row attributes cells rendered).text ∧ AllWhole P Q .cells cells
  | .cells, cell _ children _ => AllWhole P Q .blocks children
  | _, _ => False

/-- The nodes of a list at a level are parts of a template. -/
def AllWhole (P Q : Text → Prop) (level : Level) : List Node → Prop
  | [] => True
  | n :: ns => Whole P Q level n ∧ AllWhole P Q level ns

end

theorem allWhole_iff {P Q : Text → Prop} {level : Level} {ns : List Node} :
    AllWhole P Q level ns ↔ ∀ n ∈ ns, Whole P Q level n := by
  induction ns with
  | nil => simp [AllWhole]
  | cons n ns ih => simp [AllWhole, ih]

theorem whole_ofText {P Q : Text → Prop} {t : Text} (h : P t) : Whole P Q .blocks (ofText t) := by
  refine ⟨rfl, ?_⟩
  rwa [Paragraph.text_ofText]

theorem AllWhole.subset {P Q : Text → Prop} {level : Level} {ns ms : List Node}
    (h : AllWhole P Q level ns) (hs : ms ⊆ ns) : AllWhole P Q level ms :=
  allWhole_iff.2 fun n hn => allWhole_iff.1 h n (hs hn)

theorem allWhole_append {P Q : Text → Prop} {level : Level} {ns ms : List Node}
    (hn : AllWhole P Q level ns) (hm : AllWhole P Q level ms) : AllWhole P Q level (ns ++ ms) := by
  rw [allWhole_iff, List.forall_mem_append]
  exact ⟨allWhole_iff.1 hn, allWhole_iff.1 hm⟩

/-- The text of a cell has a property of its paragraphs that lines keep. -/
theorem AllWhole.cellText {P Q : Text → Prop} (hlines : ∀ ts, (∀ t ∈ ts, P t) → P (Text.unlines ts))
    {children : List Node} (h : AllWhole P Q .blocks children) : P (Text.unlines (linesOf children)) := by
  refine hlines _ fun t ht => ?_
  obtain ⟨p, hp, rfl⟩ := List.mem_map.1 ht
  obtain ⟨n, hn, he⟩ := List.mem_filterMap.1 hp
  have hw := allWhole_iff.1 h n hn
  cases n with
  | paragraph q rendered =>
    obtain rfl := Option.some.inj he
    exact hw.2
  | _ => cases he

/-- The text of a row has a property of its paragraphs that lines and tabs keep. -/
theorem AllWhole.rowText {P Q : Text → Prop} (hlines : ∀ ts, (∀ t ∈ ts, P t) → P (Text.unlines ts))
    (htabs : ∀ ts, (∀ t ∈ ts, P t) → P (Text.join ['\t'] ts)) {cells : List Node}
    (h : AllWhole P Q .cells cells) : P (Text.join ['\t'] (texts cells)) := by
  refine htabs _ ?_
  induction cells with
  | nil => exact List.forall_mem_nil _
  | cons cell cells ih =>
    refine List.forall_mem_cons.2 ⟨?_, ih h.2⟩
    cases cell with
    | cell attributes children rendered => exact h.1.cellText hlines
    | _ => cases h.1

end Node

/-! ## Branches -/

namespace Conditional

open Node (Level Whole AllWhole)

theorem subset_of_untilEnd {opened : Nat} {ns body after : List Node}
    (h : untilEnd opened ns = some (body, after)) : body ⊆ ns ∧ after ⊆ ns := by
  induction ns generalizing opened body with
  | nil => simp [untilEnd] at h
  | cons n ns ih =>
    have step : ∀ {k b}, untilEnd k ns = some (b, after) → n :: b ⊆ n :: ns ∧ after ⊆ n :: ns :=
      fun hb => ⟨List.cons_subset_cons n (ih hb).1, List.subset_cons_of_subset n (ih hb).2⟩
    have mapped : ∀ {k}, (untilEnd k ns).map (fun p => (n :: p.1, p.2)) = some (body, after) →
        body ⊆ n :: ns ∧ after ⊆ n :: ns := by
      intro k hk
      obtain ⟨⟨b, a⟩, hb, he⟩ := Option.map_eq_some_iff.1 hk
      obtain ⟨rfl, rfl⟩ := Prod.mk.inj he
      exact step hb
    unfold untilEnd at h
    split at h
    · exact mapped h
    · split at h
      · obtain ⟨rfl, rfl⟩ := Prod.mk.inj (Option.some.inj h)
        exact ⟨List.nil_subset _, List.subset_cons_self n ns⟩
      · exact mapped h
    · exact mapped h

/-- A condition of a conditional stands in one of its nodes, or it is the first one. -/
def ConditionIn (condition : Option Text) (ns : List Node) (text : Text) : Prop :=
  condition = some text ∨
    ∃ n ∈ ns, ∃ m, nodeMarker? n = some m ∧ m.kind = .elseIf ∧ m.argument = text

theorem ConditionIn.cons {condition : Option Text} {ns : List Node} {text : Text}
    (h : ConditionIn condition ns text) (n : Node) : ConditionIn condition (n :: ns) text := by
  rcases h with h | ⟨x, hx, hm⟩
  · exact .inl h
  · exact .inr ⟨x, List.mem_cons_of_mem n hx, hm⟩

/-- A branch is made of nodes of the conditional. -/
theorem of_mem_divide {condition : Option Text} {opened : Int} {ns : List Node} {b : NodeBranch}
    (h : b ∈ divide condition opened ns) :
    b.nodes ⊆ ns ∧ ∀ text, b.condition = some text → ConditionIn condition ns text := by
  induction ns generalizing condition opened b with
  | nil =>
    obtain rfl := List.mem_singleton.1 h
    exact ⟨List.nil_subset _, fun text ht => .inl ht⟩
  | cons n ns ih =>
    have keep : ∀ {o}, b ∈ divide.keep n (divide condition o ns) →
        b.nodes ⊆ n :: ns ∧ ∀ text, b.condition = some text → ConditionIn condition (n :: ns) text := by
      intro o hb
      cases hd : divide condition o ns with
      | nil => simp [hd, divide.keep] at hb
      | cons x xs =>
        rw [hd] at hb
        rcases List.mem_cons.1 hb with rfl | hb
        · have hx := @ih condition o x (by simp [hd])
          exact ⟨List.cons_subset_cons n hx.1, fun text ht => (hx.2 text ht).cons n⟩
        · have hx := @ih condition o b (by simp [hd, hb])
          exact ⟨List.subset_cons_of_subset n hx.1, fun text ht => (hx.2 text ht).cons n⟩
    unfold divide at h
    split at h
    · exact keep h
    · next m hm =>
      split at h
      · exact keep h
      · exact keep h
      · split at h
        · rcases List.mem_cons.1 h with rfl | h
          · exact ⟨List.nil_subset _, fun text ht => .inl ht⟩
          · have hx := ih h
            refine ⟨List.subset_cons_of_subset n hx.1, fun text ht => ?_⟩
            rcases hx.2 text ht with hc | hc
            · split at hc
              · next hk =>
                exact .inr ⟨n, List.mem_cons_self, m, hm, hk, Option.some.inj hc⟩
              · cases hc
            · exact ConditionIn.cons (.inr hc) n
        · exact keep h

/-! ## Resolving -/

section Resolving

variable {ι : Type} {fields fields' : Condition.Fields} {P Q : Text → Prop}

/-- The evaluations agree on the conditions in the texts with one of the properties. -/
def AgreeWhere (fields fields' : Condition.Fields) (P Q : Text → Prop) : Prop :=
  ∀ t, P t ∨ Q t → ∀ inner, .marker inner ∈ tokens t → AgreeOn fields fields' inner

theorem agreeOn_nodeMarker? (h : AgreeWhere fields fields' P Q) {level : Level} {n : Node}
    (hn : Whole P Q level n) {m : Marker} (hm : nodeMarker? n = some m)
    (hk : m.kind = .ifStart ∨ m.kind = .elseIf) :
    Condition.holdsOrReports fields m.argument = Condition.holdsOrReports fields' m.argument := by
  have agree : ∀ t, P t ∨ Q t → (Marker.lone? t).filter (fun m => m.kind.isConditional) = some m →
      Condition.holdsOrReports fields m.argument = Condition.holdsOrReports fields' m.argument := by
    intro t ht hl
    obtain ⟨inner, hi, rfl⟩ := Marker.exists_of_lone? (Option.filter_eq_some_iff.1 hl).1
    exact h t ht inner hi hk
  cases n with
  | paragraph p rendered =>
    cases level with
    | blocks => exact agree p.text (.inl hn.2) hm
    | _ => cases hn
  | row attributes cells rendered =>
    cases level with
    | rows => exact agree _ (.inr hn.2.1) hm
    | _ => cases hn
  | _ => cases hm

theorem agree_selectBranch (h : AgreeWhere fields fields' P Q) {level : Level} {n : Node}
    {ns : List Node} (hn : Whole P Q level n) (hns : AllWhole P Q level ns) (ho : nodeRole n = .opens) :
    (selectBranch fields (divide (nodeCondition n) 0 ns) : Merging ι _) =
      selectBranch fields' (divide (nodeCondition n) 0 ns) := by
  unfold selectBranch
  rw [selectFirst_congr]
  rintro ⟨b, hb⟩ - text ht
  rcases (of_mem_divide hb).2 text ht with hc | ⟨x, hx, m, hm, hk, rfl⟩
  · obtain ⟨m, hm⟩ := exists_nodeMarker? (n := n) (by rw [ho]; decide)
    have hk := ho
    rw [nodeRole_of_nodeMarker? hm, kindRole_eq_opens] at hk
    rw [nodeCondition_of_opens hm hk] at hc
    obtain rfl := Option.some.inj hc
    exact agreeOn_nodeMarker? h hn hm (.inl hk)
  · exact agreeOn_nodeMarker? h (Node.allWhole_iff.1 hns x hx) hm (.inr hk)

/-- The same nodes, with the property of their paragraphs. -/
abbrev Same (P : Text → Prop) (level : Level) (ns ms : List Node) : Prop :=
  ns = ms ∧ AllWhole P (fun _ => True) level ns

mutual

/-- **Evaluations that agree on the conditions keep the same nodes**, and their paragraphs are
paragraphs of before. -/
theorem agree_resolveNodes (h : AgreeWhere fields fields' P Q) {level : Level} (hl : level ≠ .cells) :
    ∀ ns, AllWhole P Q level ns →
      Agree (Same P level) (resolveNodes fields ns : Merging ι (List Node))
        (resolveNodes fields' ns : Merging ι (List Node))
  | [], _ => by
    rw [resolveNodes, resolveNodes]
    exact Merging.agree_pure ⟨rfl, trivial⟩
  | n :: ns, ⟨hn, hns⟩ => by
    have stays : nodeRole n ≠ .opens → nodeRole n ≠ .closes →
        Agree (Same P level) (resolveNodes fields (n :: ns) : Merging ι (List Node))
          (resolveNodes fields' (n :: ns) : Merging ι (List Node)) := by
      intro ho hc
      rw [resolveNodes_inside ho hc, resolveNodes_inside ho hc]
      refine (agree_resolveInside h hl n hn).bind ?_
      rintro k _ ⟨rfl, hk⟩
      refine (agree_resolveNodes h hl ns hns).bind ?_
      rintro ks _ ⟨rfl, hks⟩
      exact Merging.agree_pure ⟨rfl, hk, hks⟩
    cases hr : nodeRole n with
    | plain => exact stays (by rw [hr]; decide) (by rw [hr]; decide)
    | divides => exact stays (by rw [hr]; decide) (by rw [hr]; decide)
    | closes =>
      rw [resolveNodes_closes hr, resolveNodes_closes hr]
      exact (Merging.agree_report (R := fun _ _ => True) trivial _ _ _ _).bind fun _ _ _ =>
        agree_resolveNodes h hl ns hns
    | opens =>
      cases he : untilEnd 0 ns with
      | none =>
        rw [resolveNodes_unclosed hr he, resolveNodes_unclosed hr he]
        exact Merging.agree_fail _ _
      | some p =>
        obtain ⟨body, after⟩ := p
        obtain ⟨hbody, hafter⟩ := subset_of_untilEnd he
        rw [resolveNodes_opens hr he, resolveNodes_opens hr he,
          agree_selectBranch h hn (hns.subset hbody) hr]
        refine Agree.bind (R := fun a b => a = b) (Merging.agree_self fun _ _ _ => rfl) ?_
        rintro selected _ rfl
        refine Agree.bind (R := Same P level) ?_ ?_
        · cases selected with
          | none => exact Merging.agree_pure ⟨rfl, trivial⟩
          | some b =>
            have hb := (of_mem_divide b.property).1
            exact agree_resolveNodes h hl b.val.nodes (hns.subset (List.Subset.trans hb hbody))
        · rintro kept _ ⟨rfl, hkept⟩
          refine (agree_resolveNodes h hl after (hns.subset hafter)).bind ?_
          rintro more _ ⟨rfl, hmore⟩
          exact Merging.agree_pure ⟨rfl, Node.allWhole_append hkept hmore⟩
  termination_by ns => sizeOf ns
  decreasing_by
    · simp only [List.cons.sizeOf_spec]; omega
    · simp only [List.cons.sizeOf_spec]; omega
    · have h₁ := (size_of_untilEnd he).1
      have h₂ := size_of_mem_divide b.property
      simp only [List.cons.sizeOf_spec]
      omega
    · have := (size_of_untilEnd he).2
      simp only [List.cons.sizeOf_spec]
      omega
    · simp only [List.cons.sizeOf_spec]; omega

theorem agree_resolveInside (h : AgreeWhere fields fields' P Q) {level : Level} (hl : level ≠ .cells) :
    ∀ n, Whole P Q level n →
      Agree (fun k l => k = l ∧ Whole P (fun _ => True) level k)
        (resolveInside fields n : Merging ι Node) (resolveInside fields' n : Merging ι Node)
  | .table attributes rows rendered, hn => by
    cases level with
    | blocks =>
      rw [resolveInside, resolveInside]
      refine (agree_resolveNodes h (by decide) rows hn.2).bind ?_
      rintro rows' _ ⟨rfl, hrows⟩
      exact Merging.agree_pure ⟨rfl, hn.1, hrows⟩
    | _ => cases hn
  | .row attributes cells rendered, hn => by
    cases level with
    | rows =>
      rw [resolveInside, resolveInside]
      refine (agree_resolveCells h cells hn.2.2).bind ?_
      rintro cells' _ ⟨rfl, hcells⟩
      exact Merging.agree_pure ⟨rfl, hn.1, trivial, hcells⟩
    | _ => cases hn
  | .paragraph p rendered, hn => by
    rw [resolveInside, resolveInside]
    · cases level with
      | blocks => exact Merging.agree_pure ⟨rfl, hn⟩
      | _ => cases hn
    all_goals simp
  | .cell .., hn => by
    cases level with
    | cells => exact absurd rfl hl
    | _ => cases hn
  | .pageBreak _, hn => by
    rw [resolveInside, resolveInside]
    · cases level with
      | blocks => exact Merging.agree_pure ⟨rfl, trivial⟩
      | _ => cases hn
    all_goals simp
  | .verbatim _, hn => by
    rw [resolveInside, resolveInside]
    · cases level with
      | blocks => exact Merging.agree_pure ⟨rfl, trivial⟩
      | _ => cases hn
    all_goals simp
  termination_by n => sizeOf n

theorem agree_resolveCells (h : AgreeWhere fields fields' P Q) :
    ∀ cells, AllWhole P Q .cells cells →
      Agree (Same P .cells) (resolveCells fields cells : Merging ι (List Node))
        (resolveCells fields' cells : Merging ι (List Node))
  | [], _ => by
    rw [resolveCells, resolveCells]
    exact Merging.agree_pure ⟨rfl, trivial⟩
  | .cell attributes children rendered :: cells, ⟨hn, hcells⟩ => by
    rw [resolveCells, resolveCells]
    refine (agree_resolveNodes h (by decide) children hn).bind ?_
    rintro children' _ ⟨rfl, hch⟩
    refine (agree_resolveCells h cells hcells).bind ?_
    rintro cells' _ ⟨rfl, hc⟩
    exact Merging.agree_pure ⟨rfl, hch, hc⟩
  termination_by cells => sizeOf cells

end

end Resolving
end Conditional
end MailMerge
