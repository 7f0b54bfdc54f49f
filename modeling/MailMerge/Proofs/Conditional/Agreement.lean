import MailMerge.Proofs.Conditional.Passes

/-!
# Conditionals under evaluations that agree

A text is resolved alike under two evaluations that agree on the conditions of its markers. Whatever
comes of it, the tokens that are left are tokens of the text, and what holds of the parts between
markers still holds.

**`resolve_congr`**: evaluations that agree on a text resolve it alike.

**`tokens_of_resolve`**: a property of the parts between markers survives.
-/

namespace MailMerge.Conditional

open Marker (Token tokens joinTokens Divisible)
open Nesting (Piece flatten depth Settled keep shrink)

variable {fields fields' : Condition.Fields}

/-- The evaluations agree on the condition that a marker states, if it states one. -/
def AgreeOn (fields fields' : Condition.Fields) (inner : Text) : Prop :=
  (Marker.classify inner).kind = .ifStart ∨ (Marker.classify inner).kind = .elseIf →
    Condition.holdsOrReports fields (Marker.classify inner).argument =
      Condition.holdsOrReports fields' (Marker.classify inner).argument

theorem selectFirst_congr {α : Type} {condition : α → Option Text} {items : List α}
    (h : ∀ b ∈ items, ∀ text, condition b = some text →
      Condition.holdsOrReports fields text = Condition.holdsOrReports fields' text) :
    selectFirst fields condition items = selectFirst fields' condition items := by
  induction items with
  | nil => rfl
  | cons b rest ih =>
    have hrest := ih fun b' hb => h b' (List.mem_cons_of_mem b hb)
    cases hc : condition b with
    | none => simp only [selectFirst, hc]
    | some text => simp only [selectFirst, hc, h b List.mem_cons_self text hc, hrest]

theorem pass_congr {t : Text} {bs : List Block}
    (h : ∀ b ∈ bs, ∀ branch ∈ b.branches, ∀ text, branch.condition = some text →
      Condition.holdsOrReports fields text = Condition.holdsOrReports fields' text) :
    pass fields t bs = pass fields' t bs := by
  induction bs with
  | nil => rfl
  | cons b bs ih =>
    rw [pass, pass, ih fun b' hb => h b' (List.mem_cons_of_mem b hb), select, select,
      selectFirst_congr (h b List.mem_cons_self)]

/-! ## The conditions of a text -/

/-- The markers that state the conditions of a pair are its opener and its dividers. -/
theorem agree_blockOf {opener closer : Token} {body : List (Piece Token)} {offset : Nat}
    (ho : tokenRole opener = .opens)
    (h : ∀ inner, .marker inner ∈ opener :: flatten body → AgreeOn fields fields' inner)
    {branch : Branch} (hb : branch ∈ (blockOf offset opener body closer).branches) {text : Text}
    (hc : branch.condition = some text) :
    Condition.holdsOrReports fields text = Condition.holdsOrReports fields' text := by
  obtain ⟨b, hm, rfl⟩ := List.mem_map.1 hb
  have hhead : b.head ∈ opener :: flatten body ∧
      (tokenRole b.head = .opens ∨ tokenRole b.head = .divides) := by
    rcases Nesting.head_of_mem_branchesFrom hm with he | ⟨hm, hr⟩
    · exact ⟨he ▸ List.mem_cons_self, .inl (he ▸ ho)⟩
    · exact ⟨List.mem_cons_of_mem opener hm, .inr hr⟩
  obtain ⟨inner, hi⟩ := exists_of_tokenRole (k := b.head) (by rcases hhead.2 with h | h <;> simp [h])
  rw [hi] at hhead
  simp only [hi, tokenCondition, headCondition] at hc
  have hkind : (Marker.classify inner).kind ≠ .otherwise := by
    intro hk
    rw [if_pos (show (Marker.ofInner inner 0).kind = .otherwise from hk)] at hc
    cases hc
  rw [if_neg (show (Marker.ofInner inner 0).kind ≠ .otherwise from hkind), Option.some.injEq] at hc
  rw [← hc]
  refine h inner hhead.1 ?_
  show (Marker.classify inner).kind = _ ∨ _
  rcases hhead.2 with hr | hr
  · refine .inl ?_
    revert hr
    show kindRole (Marker.classify inner).kind = .opens → _
    cases (Marker.classify inner).kind <;> simp [kindRole]
  · refine .inr ?_
    revert hr hkind
    show _ → kindRole (Marker.classify inner).kind = .divides → _
    cases (Marker.classify inner).kind <;> simp [kindRole]

theorem agree_blocksFrom {opened : Prop} {ps : List (Piece Token)} {offset : Nat}
    (hs : Settled tokenRole opened ps)
    (h : ∀ inner, .marker inner ∈ flatten ps → AgreeOn fields fields' inner) {b : Block}
    (hb : b ∈ blocksFrom offset ps) {branch : Branch} (hbr : branch ∈ b.branches) {text : Text}
    (hc : branch.condition = some text) :
    Condition.holdsOrReports fields text = Condition.holdsOrReports fields' text := by
  induction ps using Piece.induction generalizing opened offset with
  | nil => simp at hb
  | item k ps ih =>
    rw [Nesting.flatten_item] at h
    rw [blocksFrom_item] at hb
    obtain ⟨-, hs⟩ := (Nesting.settled_item opened k ps).1 hs
    exact ih hs (fun inner hi => h inner (List.mem_cons_of_mem k hi)) hb
  | pair opener body closer ps ihb ih =>
    obtain ⟨ho, -, hbal, hrest⟩ := (Nesting.settled_pair opened opener body closer ps).1 hs
    rw [Nesting.flatten_pair] at h
    rw [blocksFrom_pair] at hb
    rcases List.mem_append.1 hb with hb | hb
    · by_cases hd : depth body = 0
      · rw [if_pos hd, List.mem_singleton] at hb
        subst hb
        refine agree_blockOf ho (fun inner hi => h inner ?_) hbr hc
        rcases List.mem_cons.1 hi with hi | hi
        · exact hi ▸ List.mem_cons_self
        · exact List.mem_cons_of_mem opener (List.mem_append_left _ hi)
      · rw [if_neg hd] at hb
        refine ihb (hbal.settled False) (fun inner hi => h inner ?_) hb
        exact List.mem_cons_of_mem opener (List.mem_append_left _ hi)
    · refine ih hrest (fun inner hi => h inner ?_) hb
      exact List.mem_cons_of_mem opener (List.mem_append_right _ (List.mem_cons_of_mem closer hi))

theorem pass_innermost_congr {t : Text}
    (h : ∀ inner, .marker inner ∈ tokens t → AgreeOn fields fields' inner) :
    pass fields t (innermost t) = pass fields' t (innermost t) := by
  refine pass_congr fun b hb branch hbr text hc => ?_
  rw [innermost_eq] at hb
  refine agree_blocksFrom (Nesting.settled_pairUp tokenRole (tokens t)) (fun inner hi => ?_) hb hbr hc
  rw [Nesting.flatten_pairUp] at hi
  exact h inner hi

/-! ## What is left of a text -/

variable {P : List Token → Prop}

theorem settled_shrunken (fields : Condition.Fields) (count : Nat) (t : Text) :
    Settled tokenRole False (shrunken fields count t) := by
  induction count with
  | zero => exact Nesting.settled_pairUp tokenRole (tokens t)
  | succ count ih =>
    rw [shrunken, Function.iterate_succ_apply']
    exact ih.shrink

theorem divisible_shrunken (hP : Divisible P) {t : Text} (h : P (tokens t)) (count : Nat) :
    P (flatten (shrunken fields count t)) := by
  induction count with
  | zero =>
    show P (flatten (pieces t))
    rwa [flatten_pieces]
  | succ count ih =>
    rw [shrunken, Function.iterate_succ_apply']
    exact divisible_shrink hP (settled_shrunken fields count t) ih

theorem divisible_keep (hP : Divisible P) {t : Text} (h : P (tokens t)) :
    P (keep tokenRole (tokenHolds fields) (pieces t)) := by
  rw [← flatten_shrunken (Nat.le_refl (depth (pieces t)))]
  exact divisible_shrunken hP h _

theorem passes_congr {most : Nat} {t : Text}
    (h : ∀ inner, .marker inner ∈ tokens t → AgreeOn fields fields' inner) :
    passes fields most t = passes fields' most t := by
  induction most generalizing t with
  | zero => rfl
  | succ most ih =>
    have hpass := pass_innermost_congr h
    obtain ⟨x, hp, -⟩ := pass_innermost fields t
    cases hb : innermost t with
    | nil => simp only [passes, hb]
    | cons b bs =>
      rw [hb] at hp hpass
      simp only [passes, hb, ← hpass, hp]
      cases x with
      | error f => rfl
      | ok ws =>
        simp only [Except.map, bind, Except.bind]
        rw [ih]
        intro inner hi
        rw [tokens_shrink] at hi
        refine divisible_shrunken (Marker.divisible_forall
          fun k => ∀ inner, k = .marker inner → AgreeOn fields fields' inner) ?_ 1 _ hi inner rfl
        rintro k hk inner rfl
        exact h inner hk

/-- **Evaluations that agree on the conditions of a text resolve it alike.** -/
theorem resolve_congr {ι : Type} (settings : Settings) {t : Text}
    (h : ∀ inner, .marker inner ∈ tokens t → AgreeOn fields fields' inner) :
    resolve (ι := ι) settings fields t = resolve settings fields' t := by
  rw [resolve, resolve, passes_congr h]

/-- **What holds of the parts between markers holds of what is left.** -/
theorem tokens_of_resolve {ι : Type} {settings : Settings} (hP : Divisible P) {t u : Text}
    {log : Log ι} (h : P (tokens t)) (hr : resolve settings fields t = .ok (u, log)) :
    P (tokens u) := by
  obtain ⟨x, he, -⟩ := resolve_eq (ι := ι) settings fields t
  rw [he] at hr
  cases x with
  | error f => cases hr
  | ok ws =>
    by_cases hd : depth (pieces t) ≤ settings.maxPasses.toNat
    · simp only [if_pos hd] at hr
      obtain ⟨rfl, -⟩ := Prod.mk.inj (Except.ok.inj hr)
      rw [tokens_keep]
      exact divisible_keep hP h
    · simp only [if_neg hd] at hr
      cases hr

end MailMerge.Conditional
