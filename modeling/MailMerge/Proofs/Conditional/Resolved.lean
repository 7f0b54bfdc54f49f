import MailMerge.Proofs.Conditional.Nodes

/-!
# Resolved nodes

Nodes whose conditions meet no fault resolve to their outcome, unless an opener without a closer is
met on the way. What is left holds no end of a conditional any more, at any depth.

**`resolveNodes_eq_outcome`**: nodes resolve to their outcome, or to the error about the first opener
without a closer, in the order of the document.
-/

namespace MailMerge.Conditional

open Merging (ofFault_ok)
open Nesting (Piece flatten)

variable {ι : Type} {fields : Condition.Fields}

/-! ## Events -/

/-- The condition of the first opener without a closer. -/
def firstUnclosed : List Event → Option Text
  | [] => none
  | .unclosed condition :: _ => some condition
  | _ :: es => firstUnclosed es

/-- No evaluation of a condition meets a fault before the first opener without a closer. -/
def AllDecided (fields : Condition.Fields) : List Event → Prop
  | [] => True
  | .asked conditions :: es => Decided fields conditions ∧ AllDecided fields es
  | .unopened :: es => AllDecided fields es
  | .unclosed _ :: _ => True

/-- Evaluating conditions warns of nothing but malformed conditions. -/
theorem not_mem_of_ask {conditions : List (Option Text)} {ws : List Warning}
    (h : ask fields conditions = .ok ws) : .unopenedConditional ∉ ws := by
  induction conditions generalizing ws with
  | nil =>
    obtain rfl : [] = ws := by simpa [ask] using h
    simp
  | cons c rest ih =>
    cases c with
    | none =>
      obtain rfl : [] = ws := by simpa [ask] using h
      simp
    | some text =>
      rw [ask] at h
      cases he : Condition.holdsOrReports fields text with
      | error f => simp [he, bind, Except.bind] at h
      | ok r =>
        obtain ⟨holds, problem⟩ := r
        cases holds with
        | true =>
          obtain rfl : [] = ws := by simpa [he, bind, Except.bind, pure, Except.pure] using h
          simp
        | false =>
          cases hr : ask fields rest with
          | error f => simp [he, hr, bind, Except.bind] at h
          | ok ws' =>
            obtain rfl : (problem.map Warning.falseCondition).toList ++ ws' = ws := by
              simpa [he, hr, bind, Except.bind, pure, Except.pure] using h
            have := ih hr
            cases problem <;> simp [this]

theorem runEvents_of_unclosed {es : List Event} {condition : Text} (h : AllDecided fields es)
    (hu : firstUnclosed es = some condition) :
    (runEvents fields es : Merging ι Unit) = .fail (.unclosedConditional condition) := by
  induction es with
  | nil => cases hu
  | cons e es ih =>
    cases e with
    | asked conditions =>
      obtain ⟨⟨ws, hw⟩, h⟩ := h
      rw [runEvents, hw, ofFault_ok, pure_bind, ih h hu]
      rfl
    | unopened =>
      rw [runEvents, ih h hu]
      rfl
    | unclosed c =>
      obtain rfl : c = condition := by simpa [firstUnclosed] using hu
      rfl

theorem runEvents_of_closed {es : List Event} (h : AllDecided fields es)
    (hu : firstUnclosed es = none) :
    ∃ ws, (runEvents fields es : Merging ι Unit) = .report ws [] () ∧
      ws.count .unopenedConditional = es.count .unopened := by
  induction es with
  | nil => exact ⟨[], rfl, rfl⟩
  | cons e es ih =>
    cases e with
    | asked conditions =>
      obtain ⟨⟨ws, hw⟩, h⟩ := h
      obtain ⟨ws', hr, hc⟩ := ih h hu
      refine ⟨ws ++ ws', ?_, ?_⟩
      · rw [runEvents, hw, ofFault_ok, pure_bind, hr]
        rfl
      · rw [List.count_append, List.count_eq_zero.2 (not_mem_of_ask hw), hc]
        simp
    | unopened =>
      obtain ⟨ws, hr, hc⟩ := ih h hu
      refine ⟨.unopenedConditional :: ws, ?_, ?_⟩
      · rw [runEvents, hr]
        rfl
      · rw [List.count_cons_self, List.count_cons_self, hc]
    | unclosed c => cases hu

/-! ## What is left -/

/-- The paragraph is no end of a conditional. -/
def NoEnd (p : Paragraph) : Prop :=
  ∀ m, Marker.lone? p.text = some m → m.kind ≠ .ifStart ∧ m.kind ≠ .ifEnd

theorem noEnd_of_nodeRole {p : Paragraph} {rendered : Bool}
    (ho : nodeRole (.paragraph p rendered) ≠ .opens)
    (hc : nodeRole (.paragraph p rendered) ≠ .closes) : NoEnd p := by
  intro m hm
  by_cases hk : m.kind.isConditional
  · have hn : nodeMarker? (.paragraph p rendered) = some m := by
      simp [nodeMarker?, hm, hk]
    rw [nodeRole_of_nodeMarker? hn] at ho hc
    exact ⟨fun h => ho (kindRole_eq_opens.2 h), fun h => hc (kindRole_eq_closes.2 h)⟩
  · constructor <;> intro h <;> exact hk (by rw [h]; rfl)

theorem exists_of_mem_paragraphsFrom {above : Path} {i : Nat} {level : Node.Level} {ns : List Node}
    {q : Path × Paragraph} (h : q ∈ Node.paragraphsFrom above i level ns) :
    ∃ n ∈ ns, ∃ here, q ∈ Node.paragraphsAt here level n := by
  induction ns generalizing i with
  | nil => simp [Node.paragraphsFrom] at h
  | cons n ns ih =>
    rw [Node.paragraphsFrom] at h
    rcases List.mem_append.1 h with h | h
    · exact ⟨n, List.mem_cons_self, _, h⟩
    · obtain ⟨n', hn, here, hq⟩ := ih h
      exact ⟨n', List.mem_cons_of_mem n hn, here, hq⟩

theorem exists_of_mem_outcome {ns : List Node} {n : Node} (h : n ∈ (outcome fields ns).result) :
    ∃ s ∈ siblings fields ns, s.stays ∧ n = s.inside.result := by
  obtain ⟨s, hs, rfl⟩ := List.mem_map.1 h
  obtain ⟨hk, hst⟩ := List.mem_filter.1 hs
  have := Nesting.mem_of_mem_keep hk
  rw [Nesting.flatten_pairUp] at this
  exact ⟨s, this, hst, rfl⟩

/-- No end of a conditional is left among the outcome of siblings, when none is left inside them. -/
theorem noEnd_of_siblings {ns : List Node} {level : Node.Level} (hl : level ≠ .cells)
    (h : ∀ s ∈ siblings fields ns, s.stays → ∀ level ≠ .cells, ∀ here,
      ∀ q ∈ Node.paragraphsAt here level s.inside.result, NoEnd q.2)
    {above : Path} {i : Nat} {q : Path × Paragraph}
    (hq : q ∈ Node.paragraphsFrom above i level (outcome fields ns).result) : NoEnd q.2 := by
  obtain ⟨n, hn, here, hq⟩ := exists_of_mem_paragraphsFrom hq
  obtain ⟨s, hs, hst, rfl⟩ := exists_of_mem_outcome hn
  exact h s hs hst level hl here q hq

mutual

/-- No end of a conditional is left in a node that is none. -/
theorem noEnd_inside :
    ∀ n : Node, nodeRole n ≠ .opens → nodeRole n ≠ .closes → ∀ level ≠ Node.Level.cells, ∀ here,
      ∀ q ∈ Node.paragraphsAt here level (inside fields n).result, NoEnd q.2
  | .paragraph p rendered, ho, hc, level, hl, here, q, hq => by
    cases level with
    | blocks =>
      obtain rfl : q = (here, p) := by simpa [inside, Node.paragraphsAt] using hq
      exact noEnd_of_nodeRole ho hc
    | rows => simp [inside, Node.paragraphsAt] at hq
    | cells => exact absurd rfl hl
  | .table attributes rows rendered, _, _, level, hl, here, q, hq => by
    rw [inside] at hq
    cases level with
    | blocks =>
      rw [Node.paragraphsAt] at hq
      exact noEnd_of_siblings (by decide) (noEnd_siblings rows) hq
    | rows => simp [Node.paragraphsAt] at hq
    | cells => exact absurd rfl hl
  | .row attributes cells rendered, _, _, level, hl, here, q, hq => by
    rw [inside] at hq
    cases level with
    | blocks => simp [Node.paragraphsAt] at hq
    | rows =>
      rw [Node.paragraphsAt] at hq
      obtain ⟨n, hn, here, hq⟩ := exists_of_mem_paragraphsFrom hq
      exact noEnd_insideCells cells n hn here q hq
    | cells => exact absurd rfl hl
  | .cell .., _, _, level, hl, here, q, hq => by
    cases level <;> simp [inside, Node.paragraphsAt] at hq hl
  | .pageBreak .., _, _, level, hl, here, q, hq => by
    cases level <;> simp [inside, Node.paragraphsAt] at hq
  | .verbatim .., _, _, level, hl, here, q, hq => by
    cases level <;> simp [inside, Node.paragraphsAt] at hq

theorem noEnd_siblings :
    ∀ ns : List Node, ∀ s ∈ siblings fields ns, s.stays → ∀ level ≠ Node.Level.cells, ∀ here,
      ∀ q ∈ Node.paragraphsAt here level s.inside.result, NoEnd q.2
  | [], s, h => by simp [siblings] at h
  | n :: ns, s, h => by
    rw [siblings] at h
    rcases List.mem_cons.1 h with rfl | h
    · intro hst
      have hst : nodeRole n ≠ .opens ∧ nodeRole n ≠ .closes := of_decide_eq_true hst
      exact noEnd_inside n hst.1 hst.2
    · exact noEnd_siblings ns s h

theorem noEnd_insideCells :
    ∀ cells : List Node, ∀ n ∈ (insideCells fields cells).result, ∀ here,
      ∀ q ∈ Node.paragraphsAt here .cells n, NoEnd q.2
  | [], n, h => by simp [insideCells] at h
  | .cell attributes children rendered :: cells, n, h => by
    rw [insideCells] at h
    rcases List.mem_cons.1 h with rfl | h
    · intro here q hq
      rw [Node.paragraphsAt] at hq
      exact noEnd_of_siblings (by decide) (noEnd_siblings children) hq
    · exact noEnd_insideCells cells n h
  | .paragraph .. :: cells, n, h | .table .. :: cells, n, h | .row .. :: cells, n, h
  | .pageBreak .. :: cells, n, h | .verbatim .. :: cells, n, h => by
    rw [insideCells] at h
    · rcases List.mem_cons.1 h with rfl | h
      · intro here q hq
        simp [Node.paragraphsAt] at hq
      · exact noEnd_insideCells cells n h
    all_goals simp

end

/-- **Nodes resolve to their outcome.** If no condition meets a fault, they resolve to their outcome
with a warning for each closer that is dropped; or else the first opener without a closer is an
error. After success no paragraph is an end of a conditional, in the body or in any cell. -/
theorem resolveNodes_eq_outcome (fields : Condition.Fields) (ns : List Node)
    (h : AllDecided fields (outcome fields ns).events) :
    (match firstUnclosed (outcome fields ns).events with
      | some condition =>
        (resolveNodes fields ns : Merging ι (List Node)) = .fail (.unclosedConditional condition)
      | none => ∃ ws,
        (resolveNodes fields ns : Merging ι (List Node)) = .report ws [] (outcome fields ns).result ∧
        ws.count .unopenedConditional = (outcome fields ns).events.count .unopened) ∧
    ∀ nodes log, (resolveNodes fields ns : Merging ι (List Node)) = .ok (nodes, log) →
      ∀ p ∈ Node.allParagraphs nodes, NoEnd p := by
  rw [resolveNodes_eq_run, Outcome.run]
  refine ⟨?_, ?_⟩
  · cases hu : firstUnclosed (outcome fields ns).events with
    | some condition =>
      show (runEvents fields _ >>= fun _ => pure _) = _
      rw [runEvents_of_unclosed h hu]
      rfl
    | none =>
      obtain ⟨ws, hr, hc⟩ := runEvents_of_closed (ι := ι) h hu
      refine ⟨ws, ?_, hc⟩
      rw [hr, Merging.report]
      exact congrArg (fun log => Except.ok (_, log)) (Merging.Log.append_empty _)
  · intro nodes log hr p hp
    obtain rfl : nodes = (outcome fields ns).result := by
      cases he : (runEvents fields (outcome fields ns).events : Merging ι Unit) with
      | error e => simp [he, bind, Merging.andThen] at hr
      | ok r =>
        rw [he] at hr
        exact (congrArg Prod.fst (Except.ok.inj hr)).symm
    obtain ⟨q, hq, rfl⟩ := List.mem_map.1 hp
    exact noEnd_of_siblings (by decide) (noEnd_siblings ns) hq

/-- A paragraph with a text among its siblings. -/
def Sibling.ofText (t : Text) : Sibling :=
  ⟨Node.ofText t, Node.ofText t, []⟩

/-- A conditional that holds, and a closer without an opener after it. -/
theorem resolveNodes_pair_and_closer :
    ∃ ws, resolveNodes (ι := Unit) (fun _ => .ok (.bool true))
      [Node.ofText "{{IF a}}", Node.ofText "x", Node.ofText "{{/IF}}", Node.ofText "{{/IF}}"] =
        .report ws [] [Node.ofText "x"] ∧ ws.count .unopenedConditional = 1 := by
  have hp : Nesting.pairUp Sibling.role (siblings (fun _ => .ok (.bool true))
      [Node.ofText "{{IF a}}", Node.ofText "x", Node.ofText "{{/IF}}", Node.ofText "{{/IF}}"]) =
      [.pair (.ofText "{{IF a}}") [.item (.ofText "x")] (.ofText "{{/IF}}"),
        .item (.ofText "{{/IF}}")] := by
    with_unfolding_all rfl
  have hchosen : Nesting.chosen Sibling.role (Sibling.holds fun _ => .ok (.bool true))
      (.ofText "{{IF a}}") [.item (.ofText "x")] = [.item (.ofText "x")] := by
    with_unfolding_all rfl
  have ho : outcome (fun _ => .ok (.bool true))
      [Node.ofText "{{IF a}}", Node.ofText "x", Node.ofText "{{/IF}}", Node.ofText "{{/IF}}"] =
      ⟨[Node.ofText "x"], [.asked [some "a"], .unopened]⟩ := by
    rw [outcome, hp, evaluate, Nesting.keep_pair, Nesting.trace_pair, hchosen, Nesting.keep_item,
      Nesting.keep_item, Nesting.trace_item, Nesting.trace_item, Nesting.keep_nil,
      Nesting.trace_nil]
    with_unfolding_all rfl
  have h := resolveNodes_eq_outcome (ι := Unit) (fun _ => .ok (.bool true))
    [Node.ofText "{{IF a}}", Node.ofText "x", Node.ofText "{{/IF}}", Node.ofText "{{/IF}}"]
    (by rw [ho]; exact ⟨⟨[], by with_unfolding_all rfl⟩, trivial⟩)
  rw [ho] at h
  exact h.1

end MailMerge.Conditional
