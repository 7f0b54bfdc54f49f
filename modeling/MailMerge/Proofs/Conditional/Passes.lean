import MailMerge.Proofs.Conditional.Innermost
import MailMerge.Proofs.Nesting.Shrinking
import Mathlib.Logic.Function.Iterate

/-!
# Passes over a text

A pass over a text shrinks its pieces. No marker comes to be or is broken when a text is put
together again from shrunken pieces: what a conditional leaves stands between markers, and in front
of a marker the text is sealed.

**`pieces_shrink`**: the pieces of the text that a pass gives are the shrunken pieces.

**`passes_eq`**: after so many passes, the pieces have shrunk so many times.

**`resolve_eq_keep`**: if the passes suffice, the text is what evaluation from the outside keeps.

**`resolve_eq_fail_iff`**: they do not suffice just if conditionals are nested deeper than there are passes.
-/

namespace MailMerge.Conditional

open Marker (Token joinTokens Sealed Divisible)
open Nesting (Piece flatten depth Balanced Settled keep shrink chosen choices)

variable {fields : Condition.Fields}

/-- There is no condition at the head of a branch, or it holds. -/
def tokenHolds (fields : Condition.Fields) (k : Token) : Bool :=
  conditionHolds fields (tokenCondition k)

/-! ## Seams -/

section Seams

variable {P : List Token → Prop}

theorem nesting_of_divisible (hP : Divisible P) : Nesting.Divisible tokenRole P where
  nil := hP.nil
  append := hP.append
  left h hp := by
    obtain ⟨inner, rfl⟩ := exists_of_tokenRole h
    exact hP.left hp
  right := hP.right

/-- **What holds of the parts between markers survives when pieces shrink.** Tokens that stand
before a pair end at its opening marker, so they are carried along up to there. -/
theorem divisible_shrink_append (hP : Divisible P) {holds : Token → Bool} {opened : Prop}
    {ps : List (Piece Token)} (hs : Settled tokenRole opened ps) (ts : List Token)
    (h : P (ts ++ flatten ps)) : P (ts ++ flatten (shrink tokenRole holds ps)) := by
  induction ps using Piece.induction generalizing opened ts with
  | nil => simpa using h
  | item k ps ih =>
    obtain ⟨-, hs⟩ := (Nesting.settled_item opened k ps).1 hs
    rw [Nesting.flatten_item] at h
    rw [Nesting.shrink_item, Nesting.flatten_item]
    simpa using ih hs (ts ++ [k]) (by simpa using h)
  | pair opener body closer ps ihb ih =>
    obtain ⟨ho, hc, hb, hrest⟩ := (Nesting.settled_pair opened opener body closer ps).1 hs
    obtain ⟨opener, rfl⟩ := exists_of_tokenRole (k := opener) (by rw [ho]; decide)
    obtain ⟨closer, rfl⟩ := exists_of_tokenRole (k := closer) (by rw [hc]; decide)
    rw [Nesting.flatten_pair] at h
    have hbody := hP.after h
    have hps : P (flatten (shrink tokenRole holds ps)) := ih hrest [] (hP.after hbody)
    by_cases hd : depth body = 0
    · rw [Nesting.shrink_innermost hd, Nesting.flatten_append]
      exact hP.append (hP.left h) (hP.append ((nesting_of_divisible hP).chosen (hP.left hbody) _) hps)
    · rw [Nesting.shrink_outer hd, Nesting.flatten_pair]
      have hbody' := ihb (hb.settled False) [] (hP.left hbody)
      exact hP.around (hP.left h) (hP.marker h) (hP.around hbody' (hP.marker hbody) hps)

theorem divisible_shrink (hP : Divisible P) {holds : Token → Bool} {opened : Prop}
    {ps : List (Piece Token)} (hs : Settled tokenRole opened ps) (h : P (flatten ps)) :
    P (flatten (shrink tokenRole holds ps)) :=
  divisible_shrink_append hP hs [] h

end Seams

theorem flatten_pieces (t : Text) : flatten (pieces t) = Marker.tokens t :=
  Nesting.flatten_pairUp tokenRole _

theorem textOf_pieces (t : Text) : textOf (pieces t) = t := by
  rw [textOf, flatten_pieces, Marker.joinTokens_tokens]

/-- **No marker comes to be or is broken when pieces shrink.** -/
theorem tokens_shrink (holds : Token → Bool) (t : Text) :
    Marker.tokens (textOf (shrink tokenRole holds (pieces t))) =
      flatten (shrink tokenRole holds (pieces t)) := by
  obtain ⟨ts, rest, ht, hs, hr⟩ := Marker.tokens_splits t
  have hplain : ∀ k ∈ Marker.charTokens rest, tokenRole k = .plain := by
    intro k hk
    obtain ⟨c, -, rfl⟩ := List.mem_map.1 hk
    rfl
  have hp : pieces t = Nesting.pairUp tokenRole ts ++ (Marker.charTokens rest).map Piece.item := by
    rw [pieces, ht, Nesting.pairUp_append_plain ts hplain]
  have hsealed : Sealed (flatten (shrink tokenRole holds (Nesting.pairUp tokenRole ts))) := by
    refine divisible_shrink Marker.divisible_sealed (Nesting.settled_pairUp tokenRole ts) ?_
    rwa [Nesting.flatten_pairUp]
  rw [hp, textOf, Nesting.shrink_append, Nesting.shrink_map_item, Nesting.flatten_append,
    Nesting.flatten_map_item, Marker.joinTokens_append, Marker.joinTokens_charTokens,
    Marker.tokens_joinTokens_append hsealed, Marker.tokens_of_next?_none hr]

/-- **A pass shrinks the pieces of a text.** -/
theorem pieces_shrink (holds : Token → Bool) (t : Text) :
    pieces (textOf (shrink tokenRole holds (pieces t))) = shrink tokenRole holds (pieces t) := by
  rw [pieces, tokens_shrink]
  exact Nesting.pairUp_flatten_shrink (Marker.tokens t)

/-! ## One pass -/

theorem pass_append (t : Text) (bs cs : List Block) :
    pass fields t (bs ++ cs) = pass fields t cs >>= fun r =>
      (pass fields r.1 bs).map fun r' => (r'.1, r.2 ++ r'.2) := by
  induction bs with
  | nil =>
    rw [List.nil_append]
    cases pass fields t cs with
    | error f => rfl
    | ok r =>
      show Except.ok r = Except.ok (r.1, r.2 ++ [])
      rw [List.append_nil]
  | cons b bs ih =>
    rw [List.cons_append, pass, ih]
    cases pass fields t cs with
    | error f => rfl
    | ok r =>
      show (Except.map _ (pass fields r.1 bs) >>= _) = Except.map _ (pass fields r.1 (b :: bs))
      rw [pass]
      cases pass fields r.1 bs with
      | error f => rfl
      | ok r' =>
        simp only [Except.map, bind, Except.bind]
        cases select fields b.branches with
        | error f => rfl
        | ok s => simp only [pure, Except.pure, List.append_assoc]

/-- The chosen branch of a pair is selected. -/
theorem select_blockOf (opener : Token) (body : List (Piece Token)) (closer : Token)
    (offset : Nat) :
    select fields (blockOf offset opener body closer).branches =
      (ask fields (((Nesting.branches tokenRole opener body).map (·.head)).map tokenCondition)).map
        fun ws => (textOf (chosen tokenRole (tokenHolds fields) opener body), ws) := by
  have hchosen : ∀ bs : List (Nesting.Branch Token),
      Option.elim ((bs.map fun b => (⟨tokenCondition b.head, textOf b.content⟩ : Branch)).find?
        fun b => conditionHolds fields b.condition) [] (·.content) =
      textOf ((bs.find? fun b => tokenHolds fields b.head).elim [] (·.content)) := by
    intro bs
    rw [List.find?_map]
    show Option.elim (Option.map _ (bs.find? fun b => tokenHolds fields b.head)) _ _ = _
    cases bs.find? fun b => tokenHolds fields b.head with
    | none => exact textOf_nil.symm
    | some b => rfl
  rw [select, selectFirst_eq, blockOf]
  simp only [List.map_map, Function.comp_def]
  cases ask fields ((Nesting.branches tokenRole opener body).map fun b => tokenCondition b.head) with
  | error f => rfl
  | ok ws => exact congrArg (fun t => Except.ok (t, ws)) (hchosen _)

theorem splice_blockOf {opener closer : Token} {body : List (Piece Token)} (before after u : Text) :
    splice (before ++ textOf [.pair opener body closer] ++ after)
      (blockOf before.length opener body closer) u = before ++ u ++ after := by
  show (before ++ textOf [.pair opener body closer] ++ after).take before.length ++ u ++
    (before ++ textOf [.pair opener body closer] ++ after).drop
      (before.length + (textOf [.pair opener body closer]).length) = _
  rw [← List.length_append, List.drop_left, List.append_assoc before _ after, List.take_left]

/-- A pass over the innermost conditionals of pieces shrinks them in their place, unless a condition
meets a fault. -/
theorem pass_blocksFrom (fields : Condition.Fields) (ps : List (Piece Token)) (before after : Text) :
    ∃ x : Except Fault (List Warning),
      (pass fields (before ++ textOf ps ++ after) (blocksFrom before.length ps) =
        x.map fun ws => (before ++ textOf (shrink tokenRole (tokenHolds fields) ps) ++ after, ws)) ∧
      ((∀ heads ∈ choices tokenRole ps, Decided fields (heads.map tokenCondition)) →
        ∃ ws, x = .ok ws) := by
  induction ps using Piece.induction generalizing before after with
  | nil =>
    rw [Nesting.shrink_nil, blocksFrom_nil]
    exact ⟨.ok [], rfl, fun _ => ⟨[], rfl⟩⟩
  | item k ps ih =>
    obtain ⟨x, hp, hx⟩ := ih (before ++ k.text) after
    refine ⟨x, ?_, fun h => hx (by simpa using h)⟩
    rw [List.length_append] at hp
    rw [blocksFrom_item, Nesting.shrink_item, textOf_item, textOf_item]
    simpa using hp
  | pair opener body closer ps ihb ih =>
    have hcons : textOf (.pair opener body closer :: ps) =
        textOf [.pair opener body closer] ++ textOf ps := by simp
    obtain ⟨x, hrest, hx⟩ := ih (before ++ textOf [.pair opener body closer]) after
    rw [List.length_append] at hrest
    rw [hcons, blocksFrom_pair, ← List.append_assoc before, pass_append, hrest]
    by_cases hd : depth body = 0
    · refine ⟨x >>= fun ws => (ask fields (((Nesting.branches tokenRole opener body).map
        (·.head)).map tokenCondition)).map fun ws' => ws ++ ws', ?_, fun h => ?_⟩
      · cases x with
        | error f => rfl
        | ok ws =>
          simp only [Except.map, bind, Except.bind]
          rw [if_pos hd, Nesting.shrink_innermost hd, textOf_append, pass, pass, select_blockOf]
          cases ask fields (((Nesting.branches tokenRole opener body).map
            (·.head)).map tokenCondition) with
          | error f => rfl
          | ok ws' =>
            simp only [bind, Except.bind, pure, Except.pure, Except.map]
            rw [List.append_assoc (before ++ textOf [.pair opener body closer]), splice_blockOf]
            simp
      · obtain ⟨hhead, -, hps⟩ := Nesting.forall_choices_pair.1 h
        obtain ⟨ws, rfl⟩ := hx hps
        obtain ⟨ws', hw⟩ := hhead
        exact ⟨ws ++ ws', by rw [hw]; rfl⟩
    · obtain ⟨y, hbody, hy⟩ := ihb (before ++ opener.text)
        (closer.text ++ (textOf (shrink tokenRole (tokenHolds fields) ps) ++ after))
      rw [List.length_append] at hbody
      refine ⟨x >>= fun ws => y.map fun ws' => ws ++ ws', ?_, fun h => ?_⟩
      · cases x with
        | error f => rfl
        | ok ws =>
          have hin : before ++ textOf [.pair opener body closer] ++
              textOf (shrink tokenRole (tokenHolds fields) ps) ++ after =
            before ++ opener.text ++ textOf body ++
              (closer.text ++ (textOf (shrink tokenRole (tokenHolds fields) ps) ++ after)) := by
            simp
          simp only [Except.map, bind, Except.bind]
          rw [if_neg hd, Nesting.shrink_outer hd, hin, hbody]
          cases y with
          | error f => rfl
          | ok ws' => simp [Except.map]
      · obtain ⟨-, hb, hps⟩ := Nesting.forall_choices_pair.1 h
        obtain ⟨ws, rfl⟩ := hx hps
        obtain ⟨ws', rfl⟩ := hy hb
        exact ⟨ws ++ ws', rfl⟩

/-- A pass over a text shrinks its pieces, unless a condition meets a fault. -/
theorem pass_innermost (fields : Condition.Fields) (t : Text) :
    ∃ x : Except Fault (List Warning),
      (pass fields t (innermost t) =
        x.map fun ws => (textOf (shrink tokenRole (tokenHolds fields) (pieces t)), ws)) ∧
      ((∀ heads ∈ choices tokenRole (pieces t), Decided fields (heads.map tokenCondition)) →
        ∃ ws, x = .ok ws) := by
  obtain ⟨x, hp, hx⟩ := pass_blocksFrom fields (pieces t) [] []
  refine ⟨x, ?_, hx⟩
  rw [innermost_eq]
  simpa [textOf_pieces] using hp

/-! ## All passes -/

theorem shrink_of_depth {holds : Token → Bool} {ps : List (Piece Token)} (h : depth ps = 0) :
    shrink tokenRole holds ps = ps := by
  rw [Nesting.eq_map_item_of_depth h, Nesting.shrink_map_item]

theorem blocksFrom_eq_nil_iff (offset : Nat) (ps : List (Piece Token)) :
    blocksFrom offset ps = [] ↔ depth ps = 0 := by
  refine ⟨fun h => ?_, fun h => blocksFrom_of_depth h offset⟩
  induction ps using Piece.induction generalizing offset with
  | nil => simp
  | item k ps ih =>
    rw [blocksFrom_item] at h
    rw [Nesting.depth_item, ih _ h]
  | pair opener body closer ps ihb _ =>
    rw [blocksFrom_pair, List.append_eq_nil_iff] at h
    by_cases hd : depth body = 0
    · simp [hd] at h
    · rw [if_neg hd] at h
      exact absurd (ihb _ h.1) hd

/-- The pieces of a text after so many passes. -/
def shrunken (fields : Condition.Fields) (count : Nat) (t : Text) : List (Piece Token) :=
  (shrink tokenRole (tokenHolds fields))^[count] (pieces t)

/-- Passes leave a text without conditionals as it is. -/
theorem shrunken_of_depth {fields : Condition.Fields} {t : Text} (h : depth (pieces t) = 0) (count : Nat) :
    shrunken fields count t = pieces t :=
  Function.iterate_fixed (shrink_of_depth h) count

/-- A pass leaves pieces that shrink as the pieces of its text. -/
theorem shrunken_succ (fields : Condition.Fields) (count : Nat) (t : Text) :
    shrunken fields (count + 1) t =
      shrunken fields count (textOf (shrink tokenRole (tokenHolds fields) (pieces t))) := by
  rw [shrunken, Function.iterate_succ_apply, shrunken, pieces_shrink]

theorem pieces_shrunken (fields : Condition.Fields) (count : Nat) (t : Text) :
    pieces (textOf (shrunken fields count t)) = shrunken fields count t := by
  induction count generalizing t with
  | zero =>
    show pieces (textOf (pieces t)) = pieces t
    rw [textOf_pieces]
  | succ count ih => rw [shrunken_succ, ih]

theorem keep_shrunken (fields : Condition.Fields) (count : Nat) (t : Text) :
    keep tokenRole (tokenHolds fields) (shrunken fields count t) =
      keep tokenRole (tokenHolds fields) (pieces t) := by
  induction count with
  | zero => rfl
  | succ count ih =>
    rw [shrunken, Function.iterate_succ_apply', Nesting.keep_shrink]
    exact ih

theorem depth_shrunken (fields : Condition.Fields) (count : Nat) (t : Text) :
    depth (shrunken fields count t) = depth (pieces t) - count := by
  induction count with
  | zero => rfl
  | succ count ih =>
    rw [shrunken, Function.iterate_succ_apply', Nesting.depth_shrink]
    show depth (shrunken fields count t) - 1 = _
    omega

/-- **Passes shrink the pieces as many times as there are passes**, unless a condition meets a
fault. -/
theorem passes_eq (fields : Condition.Fields) (most : Nat) (t : Text) :
    ∃ x : Except Fault (List Warning),
      (passes fields most t = x.map fun ws =>
        { text := textOf (shrunken fields most t), warnings := ws,
          finished := decide (depth (pieces t) ≤ most) }) ∧
      ((∀ heads ∈ choices tokenRole (pieces t), Decided fields (heads.map tokenCondition)) →
        ∃ ws, x = .ok ws) := by
  induction most generalizing t with
  | zero =>
    refine ⟨.ok [], ?_, fun _ => ⟨[], rfl⟩⟩
    have hb : (innermost t).isEmpty = decide (depth (pieces t) ≤ 0) := by
      rw [innermost_eq, Bool.eq_iff_iff, List.isEmpty_iff, blocksFrom_eq_nil_iff]
      simp
    show Except.ok _ = Except.ok _
    rw [hb, show shrunken fields 0 t = pieces t from rfl, textOf_pieces]
  | succ most ih =>
    by_cases hd : depth (pieces t) = 0
    · have hb : innermost t = [] := by
        rw [innermost_eq]
        exact blocksFrom_of_depth hd 0
      refine ⟨.ok [], ?_, fun _ => ⟨[], rfl⟩⟩
      rw [passes, hb, shrunken_of_depth hd, textOf_pieces]
      simp [hd, Except.map]
    · obtain ⟨x, hp, hx⟩ := pass_innermost fields t
      have hne : innermost t ≠ [] := by
        rw [innermost_eq]
        exact fun hb => hd ((blocksFrom_eq_nil_iff 0 _).1 hb)
      obtain ⟨y, hi, hy⟩ := ih (textOf (shrink tokenRole (tokenHolds fields) (pieces t)))
      have hfin : decide (depth (shrink tokenRole (tokenHolds fields) (pieces t)) ≤ most) =
          decide (depth (pieces t) ≤ most + 1) := by
        rw [Nesting.depth_shrink]
        congr 1
        simp only [eq_iff_iff]
        omega
      rw [pieces_shrink, hfin, ← shrunken_succ] at hi
      rw [pieces_shrink] at hy
      refine ⟨x >>= fun ws => y.map fun ws' => ws ++ ws', ?_, fun h => ?_⟩
      · cases hb : innermost t with
        | nil => exact absurd hb hne
        | cons b bs =>
          rw [hb] at hp
          simp only [passes, hb, hp]
          cases x with
          | error f => rfl
          | ok ws =>
            simp only [Except.map, bind, Except.bind, hi]
            cases y <;> rfl
      · obtain ⟨ws, rfl⟩ := hx h
        obtain ⟨ws', rfl⟩ := hy fun heads hh => h heads (Nesting.mem_choices_of_mem_shrink hh)
        exact ⟨ws ++ ws', rfl⟩

theorem flatten_shrunken {t : Text} {count : Nat} (h : depth (pieces t) ≤ count) :
    flatten (shrunken fields count t) = keep tokenRole (tokenHolds fields) (pieces t) := by
  have hzero : depth (shrunken fields count t) = 0 := by
    rw [depth_shrunken]
    omega
  rw [← Nesting.keep_of_depth tokenRole (tokenHolds fields) hzero, keep_shrunken]

/-- The markers of what is kept are those that were kept. -/
theorem tokens_keep (fields : Condition.Fields) (t : Text) :
    Marker.tokens (joinTokens (keep tokenRole (tokenHolds fields) (pieces t))) =
      keep tokenRole (tokenHolds fields) (pieces t) := by
  rw [← flatten_shrunken (Nat.le_refl (depth (pieces t))), ← flatten_pieces, ← textOf, pieces_shrunken]

/-- What comes of a text: its kept tokens if the passes suffice, unless a condition meets a fault. -/
theorem resolve_eq {ι : Type} (settings : Settings) (fields : Condition.Fields) (t : Text) :
    ∃ x : Except Fault (List Warning),
      (resolve (ι := ι) settings fields t = .ofFault x >>= fun ws =>
        if depth (pieces t) ≤ settings.maxPasses.toNat then
          .report ws [] (joinTokens (keep tokenRole (tokenHolds fields) (pieces t)))
        else .fail (.passLimit settings.maxPasses t)) ∧
      ((∀ heads ∈ choices tokenRole (pieces t), Decided fields (heads.map tokenCondition)) →
        ∃ ws, x = .ok ws) := by
  obtain ⟨x, hp, hx⟩ := passes_eq fields settings.maxPasses.toNat t
  refine ⟨x, ?_, hx⟩
  rw [resolve, hp]
  cases x with
  | error f => rfl
  | ok ws =>
    show Merging.result _ >>= _ = Merging.result ws >>= _
    rw [show ∀ {α : Type} (a : α), Merging.result (ι := ι) a = pure a from fun _ => rfl, pure_bind,
      show ∀ {α : Type} (a : α), Merging.result (ι := ι) a = pure a from fun _ => rfl, pure_bind]
    by_cases hd : depth (pieces t) ≤ settings.maxPasses.toNat
    · simp only [decide_eq_true hd, if_pos hd, if_true, ← flatten_shrunken hd]
      rfl
    · simp [decide_eq_false hd, if_neg hd]

/-- **A text is resolved from the outside.** If its pairs nest at most as deep as there are passes
and no condition of a pair meets a fault, each pair stands for its chosen branch, and everything else
stays. The markers of the result are those that were kept, and so it is after each pass: none comes
to be, is lost or is broken. -/
theorem resolve_eq_keep {ι : Type} (settings : Settings) (fields : Condition.Fields) (t : Text)
    (hdepth : depth (pieces t) ≤ settings.maxPasses.toNat)
    (hdecided : ∀ heads ∈ choices tokenRole (pieces t), Decided fields (heads.map tokenCondition)) :
    (∃ ws, resolve (ι := ι) settings fields t =
      .report ws [] (joinTokens (keep tokenRole (tokenHolds fields) (pieces t)))) ∧
    Marker.tokens (joinTokens (keep tokenRole (tokenHolds fields) (pieces t))) =
      keep tokenRole (tokenHolds fields) (pieces t) ∧
    ∀ count, ∃ r, passes fields count t = .ok r ∧ pieces r.text = shrunken fields count t := by
  refine ⟨?_, tokens_keep fields t, fun count => ?_⟩
  · obtain ⟨x, hr, hx⟩ := resolve_eq (ι := ι) settings fields t
    obtain ⟨ws, rfl⟩ := hx hdecided
    refine ⟨ws, ?_⟩
    rw [hr]
    simp only [if_pos hdepth]
    rfl
  · obtain ⟨x, hp, hx⟩ := passes_eq fields count t
    obtain ⟨ws, rfl⟩ := hx hdecided
    exact ⟨_, hp, pieces_shrunken fields count t⟩

/-- Two levels of conditionals, all of whose conditions hold, with two passes. -/
theorem resolve_two_levels :
    ∃ ws, resolve (ι := Unit) { maxPasses := 2 } (fun _ => .ok (.bool true))
      "{{IF a}}x{{IF b}}y{{/IF}}{{ELSE}}z{{/IF}}" = .report ws [] "xy" := by
  have hp : pieces "{{IF a}}x{{IF b}}y{{/IF}}{{ELSE}}z{{/IF}}" =
      [.pair (.marker "IF a") [.item (.char 'x'),
        .pair (.marker "IF b") [.item (.char 'y')] (.marker "/IF"),
        .item (.marker "ELSE"), .item (.char 'z')] (.marker "/IF")] := by
    with_unfolding_all rfl
  have hdecided : ∀ heads ∈ choices tokenRole (pieces "{{IF a}}x{{IF b}}y{{/IF}}{{ELSE}}z{{/IF}}"),
      Decided (fun _ => .ok (.bool true)) (heads.map tokenCondition) := by
    intro heads hh
    rw [hp, Nesting.choices_pair, Nesting.choices_item, Nesting.choices_pair] at hh
    simp only [Nesting.choices_item, Nesting.choices_nil, List.append_nil,
      List.mem_cons, List.not_mem_nil, or_false] at hh
    rcases hh with rfl | rfl
    · exact ⟨[], by with_unfolding_all rfl⟩
    · exact ⟨[], by with_unfolding_all rfl⟩
  obtain ⟨⟨ws, h⟩, -⟩ := resolve_eq_keep (ι := Unit) { maxPasses := 2 } (fun _ => .ok (.bool true))
    "{{IF a}}x{{IF b}}y{{/IF}}{{ELSE}}z{{/IF}}" (by rw [hp]; simp) hdecided
  have houter : chosen tokenRole (tokenHolds fun _ => .ok (.bool true)) (.marker "IF a")
      [.item (.char 'x'), .pair (.marker "IF b") [.item (.char 'y')] (.marker "/IF"),
        .item (.marker "ELSE"), .item (.char 'z')] =
      [.item (.char 'x'), .pair (.marker "IF b") [.item (.char 'y')] (.marker "/IF")] := by
    with_unfolding_all rfl
  have hinner : chosen tokenRole (tokenHolds fun _ => .ok (.bool true)) (.marker "IF b")
      [.item (.char 'y')] = [.item (.char 'y')] := by
    with_unfolding_all rfl
  refine ⟨ws, ?_⟩
  rw [h, hp, Nesting.keep_pair, houter, Nesting.keep_item, Nesting.keep_pair, hinner]
  simp [Token.text]

/-! ## The limit -/

/-- Passes meet no fault if no condition of a pair does. -/
theorem passes_ne_error {fields : Condition.Fields} {t : Text}
    (hdecided : ∀ heads ∈ choices tokenRole (pieces t), Decided fields (heads.map tokenCondition))
    (most : Nat) (f : Fault) : passes fields most t ≠ .error f := by
  obtain ⟨x, hp, hx⟩ := passes_eq fields most t
  obtain ⟨ws, rfl⟩ := hx hdecided
  rw [hp]
  nofun

/-- **Only nesting fails.** Unless an evaluation meets a fault, the passes over a text fail just if
its pairs nest deeper than there are passes, and then with the limit and the text as it was. The
fields have no part in it, so neither which branches are chosen nor how many conditionals stand
beside each other matters. -/
theorem resolve_eq_fail_iff {ι : Type} (settings : Settings) (fields : Condition.Fields) (t : Text)
    (hfault : ∀ f, passes fields settings.maxPasses.toNat t ≠ .error f) (e : MergeError) :
    resolve (ι := ι) settings fields t = .fail e ↔
      e = .passLimit settings.maxPasses t ∧ settings.maxPasses.toNat < depth (pieces t) := by
  obtain ⟨x, hp, -⟩ := passes_eq fields settings.maxPasses.toNat t
  cases x with
  | error f => exact absurd hp (hfault f)
  | ok ws =>
    rw [resolve, hp]
    show (Merging.result _ >>= _ : Merging ι Text) = _ ↔ _
    rw [show ∀ {α : Type} (a : α), Merging.result (ι := ι) a = pure a from fun _ => rfl, pure_bind]
    by_cases hd : depth (pieces t) ≤ settings.maxPasses.toNat
    · rw [decide_eq_true hd]
      constructor
      · nofun
      · intro h
        omega
    · rw [decide_eq_false hd]
      show Except.error (.passLimit settings.maxPasses t) = Except.error e ↔ _
      rw [Except.error.injEq]
      constructor
      · intro h
        exact ⟨h.symm, by omega⟩
      · intro h
        exact h.1.symm

/-- Two levels of conditionals and one pass. -/
theorem resolve_two_levels_fails :
    (∀ f, passes (fun _ => .ok (.bool false)) 1 "{{IF a}}{{IF b}}y{{/IF}}{{/IF}}" ≠ .error f) ∧
    resolve (ι := Unit) { maxPasses := 1 } (fun _ => .ok (.bool false))
      "{{IF a}}{{IF b}}y{{/IF}}{{/IF}}" =
        .fail (.passLimit 1 "{{IF a}}{{IF b}}y{{/IF}}{{/IF}}") := by
  have hp : pieces "{{IF a}}{{IF b}}y{{/IF}}{{/IF}}" =
      [.pair (.marker "IF a") [.pair (.marker "IF b") [.item (.char 'y')] (.marker "/IF")]
        (.marker "/IF")] := by
    with_unfolding_all rfl
  have hfault : ∀ f, passes (fun _ => .ok (.bool false)) 1
      "{{IF a}}{{IF b}}y{{/IF}}{{/IF}}" ≠ .error f := by
    refine passes_ne_error (fun heads hh => ?_) 1
    rw [hp, Nesting.choices_pair, Nesting.choices_pair] at hh
    simp only [Nesting.choices_item, Nesting.choices_nil, List.append_nil,
      List.mem_cons, List.not_mem_nil, or_false] at hh
    rcases hh with rfl | rfl
    · exact ⟨[], by with_unfolding_all rfl⟩
    · exact ⟨[], by with_unfolding_all rfl⟩
  refine ⟨hfault, (resolve_eq_fail_iff { maxPasses := 1 } _ _ hfault _).2 ⟨rfl, ?_⟩⟩
  rw [hp]
  simp

end MailMerge.Conditional
