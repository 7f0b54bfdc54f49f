import MailMerge.Proofs.Conditional.Resolved
import MailMerge.Proofs.Conditional.Segments

/-!
# Conditionals over lines, as text and as paragraphs

Lines with a conditional marker to themselves can be put together to one text, whose conditionals
are resolved from the inside in several passes, or stand as paragraphs, whose conditionals are
resolved from the outside by dropping whole paragraphs.

**`resolve_unlines_agrees`**: both keep the same lines.
-/

namespace MailMerge.Conditional

open Marker (joinTokens charTokens)
open Nesting (Piece flatten depth Balanced Settled choices keep pairUp divides)

variable {ι : Type} {fields : Condition.Fields}

/-- The lines that are kept when each conditional over them stands for its chosen branch. -/
def keptLines (fields : Condition.Fields) (lines : List Paragraph) : List Paragraph :=
  keep lineRole (lineHolds fields) (pairUp lineRole lines)

/-- The conditionals over lines are well nested: every opener has its closer, every divider stands
inside a conditional, and they are at most so deep. -/
structure WellNested (most : Nat) (lines : List Paragraph) : Prop where
  balanced : Balanced lineRole (pairUp lineRole lines)
  inside : ∀ p ∈ pairUp lineRole lines, ¬ divides lineRole p
  depth_le : depth (pairUp lineRole lines) ≤ most

/-- No condition of a conditional over lines meets a fault. -/
def LinesDecided (fields : Condition.Fields) (lines : List Paragraph) : Prop :=
  ∀ heads ∈ choices lineRole (pairUp lineRole lines), Decided fields (heads.map lineCondition)

/-! ## Lines as paragraphs -/

/-- A line as a paragraph among its siblings. -/
def Sibling.ofLine (p : Paragraph) : Sibling :=
  ⟨.paragraph p, .paragraph p, []⟩

/-- Lines written out as siblings. -/
def lineSiblings (fields : Condition.Fields) :
    Nesting.Expansion lineRole (lineHolds fields) Sibling.role (Sibling.holds fields) where
  items p := [.ofLine p]
  one := .ofLine
  items_one _ := rfl
  role_one _ := rfl
  holds_one _ := rfl
  plain h hb := by
    obtain rfl := List.mem_singleton.1 hb
    exact h

theorem siblings_lines (lines : List Paragraph) :
    siblings fields (lines.map (.paragraph ·)) = lines.flatMap (lineSiblings fields).items := by
  induction lines with
  | nil => simp [siblings]
  | cons p lines ih =>
    rw [List.map_cons, siblings, ih, inside]
    · rfl
    all_goals simp

/-- If every event is an evaluation that meets no fault, running through them succeeds. -/
theorem gives_runEvents {es : List Event}
    (h : ∀ e ∈ es, ∃ conditions, e = .asked conditions ∧ Decided fields conditions) :
    (runEvents fields es : Merging ι Unit).Gives () := by
  induction es with
  | nil => exact Merging.gives_pure_iff.2 rfl
  | cons e es ih =>
    obtain ⟨conditions, rfl, ws, hw⟩ := h e List.mem_cons_self
    rw [runEvents, hw, Merging.ofFault_ok, pure_bind]
    exact Merging.gives_bind_iff.2 ⟨(), Merging.gives_report_iff.2 rfl,
      ih fun e he => h e (List.mem_cons_of_mem _ he)⟩

/-- **Lines as paragraphs**: the paragraphs of the kept lines stay. -/
theorem gives_resolveNodes_lines {most : Nat} {lines : List Paragraph}
    (hnested : WellNested most lines) (hdecided : LinesDecided fields lines) :
    (resolveNodes fields (lines.map (.paragraph ·)) : Merging ι (List Node)).Gives
      ((keptLines fields lines).map (.paragraph ·)) := by
  have hsettled := Nesting.settled_pairUp lineRole lines
  have hpieces : pairUp Sibling.role (siblings fields (lines.map (.paragraph ·))) =
      (lineSiblings fields).pieces (pairUp lineRole lines) := by
    rw [siblings_lines, (lineSiblings fields).pairUp]
  have hkeep : keep Sibling.role (Sibling.holds fields)
      ((lineSiblings fields).pieces (pairUp lineRole lines)) =
        (keptLines fields lines).map Sibling.ofLine := by
    rw [(lineSiblings fields).keep_pieces hsettled]
    exact List.flatMap_pure_eq_map ..
  have hplain : ∀ p ∈ keptLines fields lines, lineRole p = .plain := fun p hp =>
    
    Nesting.plain_of_mem_keep hnested.balanced hnested.inside hp
  rw [resolveNodes_eq_run, outcome, hpieces, Outcome.run, evaluate, hkeep]
  refine Merging.gives_bind_iff.2 ⟨(), gives_runEvents fun e he => ?_, Merging.gives_pure_iff.2 ?_⟩
  · obtain ⟨v, hv, he⟩ := List.mem_flatMap.1 he
    cases v with
    | met s =>
      have hs : s ∈ (keptLines fields lines).map Sibling.ofLine := by
        rw [← hkeep, ← Nesting.filterMap_trace]
        exact List.mem_filterMap.2 ⟨_, hv, rfl⟩
      obtain ⟨p, hp, rfl⟩ := List.mem_map.1 hs
      have hrole : (Sibling.ofLine p).role = .plain := hplain p hp
      rw [visitEvents, hrole] at he
      cases he
    | asked heads =>
      have hheads := Nesting.mem_choices_of_mem_trace hv
      rw [(lineSiblings fields).choices_pieces hsettled] at hheads
      obtain ⟨lineHeads, hmem, rfl⟩ := List.mem_map.1 hheads
      refine ⟨lineHeads.map lineCondition, ?_, hdecided lineHeads hmem⟩
      rw [visitEvents, List.map_map] at he
      exact List.mem_singleton.1 he
  · rw [List.filter_eq_self.2, List.map_map]
    · rfl
    · intro s hs
      obtain ⟨p, hp, rfl⟩ := List.mem_map.1 hs
      have hrole : (Sibling.ofLine p).role = .plain := hplain p hp
      simp [Sibling.stays, hrole]

/-! ## Lines as one text -/

theorem cons_unlines {ts : List Text} (h : ts ≠ []) :
    '\n' :: Text.unlines ts = ts.flatMap ('\n' :: ·) := by
  induction ts with
  | nil => exact absurd rfl h
  | cons t ts ih =>
    cases ts with
    | nil => simp [Text.unlines, Text.join]
    | cons u ts =>
      rw [List.flatMap_cons, ← ih (by simp)]
      simp [Text.unlines, Text.join]

/-- A newline on each side of a text stays by itself. -/
theorem pieces_between_newlines (t : Text) :
    pieces ('\n' :: (t ++ ['\n'])) =
      .item (.char '\n') :: (pieces t ++ [.item (.char '\n')]) := by
  have hends : Marker.tokens ('\n' :: (t ++ ['\n'])) =
      .char '\n' :: (Marker.tokens t ++ [.char '\n']) := by
    rw [Marker.tokens_cons (Marker.dropStart?_opening_of_ne (by decide) _),
      Marker.tokens_append_plain t (by simp)]
    rfl
  rw [pieces, hends, Nesting.pairUp_cons_plain rfl, Nesting.pairUp_append_plain _ (by simp [tokenRole])]
  rfl

/-- The text of lines, between newlines, is cut into segments. -/
theorem exists_segments_unlines {lines : List Paragraph} (h : ∀ p ∈ lines, IsLine p) :
    ∃ ss : List Segment, ss.flatMap Segment.lines = lines ∧ Segment.Followed ss ∧
      ss.flatMap Segment.chars = '\n' :: (Text.unlines (lines.map (·.text)) ++ ['\n']) := by
  by_cases hne : lines = []
  · subst hne
    exact ⟨[.lead [] (by simp), .lead [] (by simp)], rfl, trivial, rfl⟩
  · obtain ⟨ss, hss, hchars, hends⟩ := Segment.exists_segments h
    refine ⟨ss ++ [.lead [] (by simp)], by simp [hss, Segment.lines], ?_, ?_⟩
    · exact (hends [.lead [] (by simp)] ⟨_, rfl, rfl⟩ trivial).2
    · rw [List.flatMap_append, hchars, ← cons_unlines (by simpa using hne)]
      rfl

section Cut

variable {lines : List Paragraph} {ss : List Segment} {u : Text}

/-- The pieces of the text, between newlines, are those of the segments. -/
theorem pieces_of_chars (fields : Condition.Fields) (hfollowed : Segment.Followed ss)
    (hchars : ss.flatMap Segment.chars = '\n' :: (u ++ ['\n'])) :
    .item (.char '\n') :: (pieces u ++ [.item (.char '\n')]) =
      (Segment.asTokens fields).pieces (pairUp Segment.role ss) := by
  rw [← pieces_between_newlines, ← hchars, ← Segment.joinTokens_tokens, pieces,
    Marker.tokens_joinTokens (Segment.sealed_tokens hfollowed)]
  exact (Segment.asTokens fields).pairUp ss

/-- The pieces of the lines are those of the segments. -/
theorem pieces_of_lines (fields : Condition.Fields) (hlines : ss.flatMap Segment.lines = lines) :
    pairUp lineRole lines = (Segment.asLines fields).pieces (pairUp Segment.role ss) := by
  rw [← hlines]
  exact (Segment.asLines fields).pairUp ss

theorem depth_pieces_eq (hfollowed : Segment.Followed ss)
    (hchars : ss.flatMap Segment.chars = '\n' :: (u ++ ['\n']))
    (hlines : ss.flatMap Segment.lines = lines) :
    depth (pieces u) = depth (pairUp lineRole lines) := by
  have fields : Condition.Fields := fun _ => .ok .null
  have h := congrArg depth (pieces_of_chars fields hfollowed hchars)
  rw [pieces_of_lines fields hlines, Nesting.Expansion.depth_pieces]
  rw [Nesting.Expansion.depth_pieces] at h
  simpa using h

theorem decided_pieces (hfollowed : Segment.Followed ss)
    (hchars : ss.flatMap Segment.chars = '\n' :: (u ++ ['\n']))
    (hlines : ss.flatMap Segment.lines = lines) (hdecided : LinesDecided fields lines) :
    ∀ heads ∈ choices tokenRole (pieces u), Decided fields (heads.map tokenCondition) := by
  intro heads hheads
  have hsettled := Nesting.settled_pairUp Segment.role ss
  have hmem : heads ∈ choices tokenRole
      ((Segment.asTokens fields).pieces (pairUp Segment.role ss)) := by
    rw [← pieces_of_chars fields hfollowed hchars]
    simpa using hheads
  rw [Nesting.Expansion.choices_pieces _ hsettled] at hmem
  obtain ⟨segments, hsegments, rfl⟩ := List.mem_map.1 hmem
  have hline := hdecided (segments.map (Segment.asLines fields).one) (by
    rw [pieces_of_lines fields hlines, Nesting.Expansion.choices_pieces _ hsettled]
    exact List.mem_map_of_mem hsegments)
  simpa [Function.comp_def, Segment.condition_one] using hline

/-- What the conditionals of the text leave has the texts of the kept lines as its lines that are not
blank. -/
theorem inkedLines_keep (hfollowed : Segment.Followed ss)
    (hchars : ss.flatMap Segment.chars = '\n' :: (u ++ ['\n']))
    (hlines : ss.flatMap Segment.lines = lines) {most : Nat} (hnested : WellNested most lines) :
    inkedLines (joinTokens (keep tokenRole (tokenHolds fields) (pieces u))) =
      (keptLines fields lines).map (·.text) := by
  have hsettled := Nesting.settled_pairUp Segment.role ss
  have hpieces := pieces_of_lines fields hlines
  have hbalanced : Balanced Segment.role (pairUp Segment.role ss) :=
    (Segment.asLines fields).balanced_of_pieces hsettled (hpieces ▸ hnested.balanced)
  have hinside : ∀ p ∈ pairUp Segment.role ss, ¬ divides Segment.role p :=
    (Segment.asLines fields).not_divides_of_pieces (hpieces ▸ hnested.inside)
  have hplain : ∀ s ∈ keep Segment.role (Segment.holds fields) (pairUp Segment.role ss),
      Segment.role s = .plain := fun s hs => Nesting.plain_of_mem_keep hbalanced hinside hs
  have hkept : Segment.Followed
      (keep Segment.role (Segment.holds fields) (pairUp Segment.role ss)) :=
    Segment.divisible_followed.keep_append hsettled [] (by rwa [Nesting.flatten_pairUp])
  have htext : '\n' :: (joinTokens (keep tokenRole (tokenHolds fields) (pieces u)) ++ ['\n']) =
      (keep Segment.role (Segment.holds fields) (pairUp Segment.role ss)).flatMap Segment.chars := by
    have hkeep := congrArg (keep tokenRole (tokenHolds fields))
      (pieces_of_chars fields hfollowed hchars)
    rw [(Segment.asTokens fields).keep_pieces hsettled] at hkeep
    rw [← Segment.joinTokens_tokens]
    refine Eq.trans ?_ (congrArg joinTokens hkeep)
    simp [Marker.Token.text]
  have hinked := Segment.inkedLines_chars hkept hplain (List.forall_mem_nil _)
  rw [List.nil_append, ← htext, inkedLines_newline, inkedLines_append,
    inkedLines_blank (List.forall_mem_nil _), List.append_nil] at hinked
  rw [keptLines, hpieces, (Segment.asLines fields).keep_pieces hsettled]
  exact hinked

end Cut

/-- **Lines as one text**: the lines that are not blank are the texts of the kept lines. -/
theorem gives_resolve_unlines (settings : Settings) {lines : List Paragraph}
    (hlines : ∀ p ∈ lines, IsLine p) (hnested : WellNested settings.maxPasses.toNat lines)
    (hdecided : LinesDecided fields lines) :
    ∃ text, (resolve settings fields (Text.unlines (lines.map (·.text))) : Merging ι Text).Gives text ∧
      inkedLines text = (keptLines fields lines).map (·.text) := by
  obtain ⟨ss, hss, hfollowed, hchars⟩ := exists_segments_unlines hlines
  obtain ⟨x, hresolve, hx⟩ :=
    resolve_eq (ι := ι) settings fields (Text.unlines (lines.map (·.text)))
  obtain ⟨ws, rfl⟩ := hx (decided_pieces hfollowed hchars hss hdecided)
  have hdepth : depth (pieces (Text.unlines (lines.map (·.text)))) ≤ settings.maxPasses.toNat := by
    rw [depth_pieces_eq hfollowed hchars hss]
    exact hnested.depth_le
  refine ⟨_, ?_, inkedLines_keep hfollowed hchars hss hnested⟩
  rw [hresolve, Merging.ofFault_ok, pure_bind, if_pos hdepth]
  exact Merging.gives_report_iff.2 rfl

/-- **Text and paragraphs agree.** Lines whose conditionals are well nested, no deeper than there are
passes, and whose conditions meet no fault, resolve as one text and as paragraphs; the lines of the
text that are not blank are the texts of the paragraphs that stay. -/
theorem resolve_unlines_agrees (settings : Settings) (fields : Condition.Fields)
    (lines : List Paragraph) (hlines : ∀ p ∈ lines, IsLine p)
    (hnested : WellNested settings.maxPasses.toNat lines) (hdecided : LinesDecided fields lines) :
    ∃ (text : Text) (kept : List Paragraph),
      (resolve settings fields (Text.unlines (lines.map (·.text))) : Merging ι Text).Gives text ∧
      (resolveNodes fields (lines.map (.paragraph ·)) : Merging ι (List Node)).Gives
        (kept.map (.paragraph ·)) ∧
      inkedLines text = kept.map (·.text) := by
  obtain ⟨text, htext, hinked⟩ := gives_resolve_unlines (ι := ι) settings hlines hnested hdecided
  exact ⟨text, keptLines fields lines, htext, gives_resolveNodes_lines hnested hdecided, hinked⟩

/-- Lines of two conditionals, one in the `ELSE` of the other. -/
def choiceLines : List Paragraph :=
  [" {{IF a}}".toList, "x", "{{ELSE}} ", "{{IF NOT b}}", "y", "{{/IF}}", "{{/IF}}"].map
    fun t => .ofText t [] []

/-- Two levels of conditionals over lines, the outer one decided by its `ELSE`. -/
theorem resolve_unlines_two_levels :
    ∃ (text : Text) (kept : List Paragraph),
      (resolve (ι := Unit) { maxPasses := 2 } (fun _ => .ok (.bool false))
        (Text.unlines (choiceLines.map (·.text)))).Gives text ∧
      (resolveNodes (ι := Unit) (fun _ => .ok (.bool false)) (choiceLines.map (.paragraph ·))).Gives
        (kept.map (.paragraph ·)) ∧
      inkedLines text = kept.map (·.text) := by
  have hp : pairUp lineRole choiceLines =
      [.pair (.ofText " {{IF a}}" [] []) [.item (.ofText "x" [] []), .item (.ofText "{{ELSE}} " [] []),
        .pair (.ofText "{{IF NOT b}}" [] []) [.item (.ofText "y" [] [])] (.ofText "{{/IF}}" [] [])]
        (.ofText "{{/IF}}" [] [])] := by
    with_unfolding_all rfl
  have hopens : lineRole (.ofText " {{IF a}}" [] []) = .opens := by with_unfolding_all rfl
  have helse : lineRole (.ofText "{{ELSE}} " [] []) = .divides := by with_unfolding_all rfl
  have hopens' : lineRole (.ofText "{{IF NOT b}}" [] []) = .opens := by with_unfolding_all rfl
  have hcloses : lineRole (.ofText "{{/IF}}" [] []) = .closes := by with_unfolding_all rfl
  have hplain : PlainLine "x" ∧ PlainLine "y" := by
    constructor <;> exact ⟨by with_unfolding_all rfl, by with_unfolding_all rfl, by decide⟩
  have hroles : lineRole (.ofText "x" [] []) = .plain ∧ lineRole (.ofText "y" [] []) = .plain := by
    constructor <;> with_unfolding_all rfl
  apply resolve_unlines_agrees
  · intro p hp
    simp only [choiceLines, List.map_cons, List.map_nil, List.mem_cons, List.not_mem_nil, or_false] at hp
    rcases hp with rfl | rfl | rfl | rfl | rfl | rfl | rfl
    · exact .inl (by rw [hopens]; decide)
    · exact .inr hplain.1
    · exact .inl (by rw [helse]; decide)
    · exact .inl (by rw [hopens']; decide)
    · exact .inr hplain.2
    · exact .inl (by rw [hcloses]; decide)
    · exact .inl (by rw [hcloses]; decide)
  · constructor
    · rw [hp]
      simp only [Nesting.balanced_pair, Nesting.balanced_item, Nesting.balanced_nil, hopens, helse,
        hopens', hcloses, hroles]
      decide
    · rw [hp]
      intro p hp
      obtain rfl := List.mem_singleton.1 hp
      exact id
    · rw [hp]
      simp
  · intro heads hh
    have houter : (Nesting.branches lineRole (.ofText " {{IF a}}" [] [])
        [.item (.ofText "x" [] []), .item (.ofText "{{ELSE}} " [] []),
          .pair (.ofText "{{IF NOT b}}" [] []) [.item (.ofText "y" [] [])]
            (.ofText "{{/IF}}" [] [])]).map (·.head) =
        [.ofText " {{IF a}}" [] [], .ofText "{{ELSE}} " [] []] := by
      with_unfolding_all rfl
    have hinner : (Nesting.branches lineRole (.ofText "{{IF NOT b}}" [] [])
        [.item (.ofText "y" [] [])]).map (·.head) = [.ofText "{{IF NOT b}}" [] []] := by
      with_unfolding_all rfl
    rw [hp] at hh
    simp only [Nesting.choices_pair, Nesting.choices_item, Nesting.choices_nil, houter, hinner,
      List.append_nil, List.mem_cons, List.not_mem_nil, or_false] at hh
    rcases hh with rfl | rfl
    · decide +kernel
    · decide +kernel

end MailMerge.Conditional
