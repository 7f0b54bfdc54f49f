import MailMerge.Conditional.Branch
import MailMerge.Conditional.Inline
import MailMerge.Proofs.Marker.Token
import MailMerge.Proofs.Nesting.Basic
import MailMerge.Proofs.Nesting.Pairing

/-!
# The innermost conditionals of a text

As long as no evaluation of a condition meets a fault, the branch that is selected is the first one
whose condition holds. What comes after that branch is never evaluated.

The tokens of a text are paired up to pieces. A conditional that the scan for innermost conditionals
finds is a pair whose body holds no other pair, at the offset where the pair stands, and its branches
are the pair's.

**`innermost_eq`**: the scan finds just these, from left to right.
-/

namespace MailMerge.Conditional

/-- What a marker does to the conditionals around it. -/
def kindRole : Marker.Kind → Nesting.Role
  | .ifStart => .opens
  | .elseIf | .otherwise => .divides
  | .ifEnd => .closes
  | _ => .plain

theorem isConditional_iff (k : Marker.Kind) : k.isConditional ↔ kindRole k ≠ .plain := by
  cases k <;> decide

/-- There is no condition, or the condition holds. -/
def conditionHolds (fields : Condition.Fields) : Option Text → Bool
  | none => true
  | some text =>
    match Condition.holdsOrReports fields text with
    | .ok (holds, _) => holds
    | .error _ => false

/-- The warnings from evaluating conditions up to the first one that holds. -/
def ask (fields : Condition.Fields) : List (Option Text) → Except Fault (List Warning)
  | [] => .ok []
  | none :: _ => .ok []
  | some text :: rest => do
    let (holds, problem) ← Condition.holdsOrReports fields text
    if holds then
      return []
    else
      return (problem.map Warning.falseCondition).toList ++ (← ask fields rest)

/-- No condition meets a fault, up to the first one that holds. -/
def Decided (fields : Condition.Fields) (conditions : List (Option Text)) : Prop :=
  ∃ ws, ask fields conditions = .ok ws

instance (fields : Condition.Fields) (conditions : List (Option Text)) :
    Decidable (Decided fields conditions) :=
  decidable_of_iff ((ask fields conditions).toBool = true) (by
    unfold Decided
    cases ask fields conditions with
    | error e => simp [Except.toBool]
    | ok ws => simp [Except.toBool])

/-- **The first item whose condition holds is selected**, unless a fault comes before it. -/
theorem selectFirst_eq {α : Type} (fields : Condition.Fields) (condition : α → Option Text)
    (items : List α) :
    selectFirst fields condition items =
      (ask fields (items.map condition)).map fun ws =>
        (items.find? fun b => conditionHolds fields (condition b), ws) := by
  induction items with
  | nil => rfl
  | cons b rest ih =>
    cases hc : condition b with
    | none => simp [selectFirst, ask, hc, conditionHolds, Except.map]
    | some text =>
      simp only [List.map_cons, hc, selectFirst, ask, ih]
      cases he : Condition.holdsOrReports fields text with
      | error f => rfl
      | ok r =>
        obtain ⟨holds, problem⟩ := r
        have hb : conditionHolds fields (condition b) = holds := by
          rw [hc, conditionHolds, he]
        cases holds with
        | true =>
          rw [List.find?_cons_of_pos (p := fun b => conditionHolds fields (condition b)) hb]
          rfl
        | false =>
          rw [List.find?_cons_of_neg (p := fun b => conditionHolds fields (condition b)) (by simp [hb])]
          cases ask fields (rest.map condition) <;> rfl

end MailMerge.Conditional

namespace MailMerge.Conditional

open Marker (Token joinTokens locateTokens)
open Nesting (Piece flatten depth Balanced Settled)

/-! ## Tokens as items -/

/-- What a token does to the conditionals around it. -/
def tokenRole : Token → Nesting.Role
  | .char _ => .plain
  | .marker inner => kindRole (Marker.classify inner).kind

/-- The condition of the branch that a token begins. -/
def tokenCondition : Token → Option Text
  | .char _ => none
  | .marker inner => headCondition (Marker.ofInner inner 0)

/-- The pieces of a text. -/
def pieces (t : Text) : List (Piece Token) :=
  Nesting.pairUp tokenRole (Marker.tokens t)

/-- The text of pieces. -/
def textOf (ps : List (Piece Token)) : Text :=
  joinTokens (flatten ps)

@[simp] theorem textOf_nil : textOf [] = [] := by
  simp [textOf]

@[simp] theorem textOf_item (k : Token) (ps : List (Piece Token)) :
    textOf (.item k :: ps) = k.text ++ textOf ps := by
  simp [textOf]

@[simp] theorem textOf_pair (opener : Token) (body : List (Piece Token)) (closer : Token)
    (ps : List (Piece Token)) :
    textOf (.pair opener body closer :: ps) =
      opener.text ++ (textOf body ++ (closer.text ++ textOf ps)) := by
  simp [textOf]

@[simp] theorem textOf_append (ps qs : List (Piece Token)) :
    textOf (ps ++ qs) = textOf ps ++ textOf qs := by
  simp [textOf]

/-- The marker that a token is at an offset. -/
def markerAt (offset : Nat) : Token → Option Marker
  | .char _ => none
  | .marker inner => some (Marker.ofInner inner offset)

/-- The conditional markers among tokens that start at an offset. -/
def conditionalsFrom (offset : Nat) (ts : List Token) : List Marker :=
  (locateTokens offset ts).filter fun m => m.kind.isConditional

theorem kindRole_ofInner (inner : Text) (offset : Nat) :
    kindRole (Marker.ofInner inner offset).kind = tokenRole (.marker inner) := rfl

theorem exists_of_tokenRole {k : Token} (h : tokenRole k ≠ .plain) :
    ∃ inner, k = .marker inner := by
  cases k with
  | char c => exact absurd rfl h
  | marker inner => exact ⟨inner, rfl⟩

theorem conditionalsFrom_append (offset : Nat) (ts us : List Token) :
    conditionalsFrom offset (ts ++ us) =
      conditionalsFrom offset ts ++ conditionalsFrom (offset + (joinTokens ts).length) us := by
  rw [conditionalsFrom, Marker.locateTokens_append, List.filter_append]
  rfl

theorem conditionalsFrom_plain {k : Token} (h : tokenRole k = .plain) (offset : Nat)
    (ts : List Token) :
    conditionalsFrom offset (k :: ts) = conditionalsFrom (offset + k.text.length) ts := by
  cases k with
  | char c => rfl
  | marker inner =>
    have hc : ¬ (Marker.ofInner inner offset).kind.isConditional := fun hk =>
      (isConditional_iff _).1 hk h
    exact List.filter_cons_of_neg hc

theorem conditionalsFrom_marker {inner : Text} (h : tokenRole (.marker inner) ≠ .plain)
    (offset : Nat) (ts : List Token) :
    conditionalsFrom offset (.marker inner :: ts) =
      Marker.ofInner inner offset ::
        conditionalsFrom (offset + (Token.marker inner).text.length) ts := by
  have hc : (Marker.ofInner inner offset).kind.isConditional := (isConditional_iff _).2 h
  exact List.filter_cons_of_pos hc

/-! ## The conditionals of pieces -/

/-- The conditional that a pair is at an offset. -/
def blockOf (offset : Nat) (opener : Token) (body : List (Piece Token)) (closer : Token) : Block where
  start := offset
  stop := offset + (textOf [.pair opener body closer]).length
  branches := (Nesting.branches tokenRole opener body).map fun b =>
    ⟨tokenCondition b.head, textOf b.content⟩

/-- The conditionals of the innermost pairs among pieces that start at an offset. -/
def blocksFrom (offset : Nat) : List (Piece Token) → List Block
  | [] => []
  | .item k :: ps => blocksFrom (offset + k.text.length) ps
  | .pair opener body closer :: ps =>
    (if depth body = 0 then [blockOf offset opener body closer]
      else blocksFrom (offset + opener.text.length) body)
      ++ blocksFrom (offset + (textOf [.pair opener body closer]).length) ps

/-- The dividers by themselves among pieces that start at an offset. -/
def dividersFrom (offset : Nat) : List (Piece Token) → List Marker
  | [] => []
  | .item k :: ps =>
    (if tokenRole k = .divides then (markerAt offset k).toList else [])
      ++ dividersFrom (offset + k.text.length) ps
  | .pair opener body closer :: ps =>
    dividersFrom (offset + (textOf [.pair opener body closer]).length) ps

@[simp] theorem blocksFrom_nil (offset : Nat) : blocksFrom offset [] = [] := by
  rw [blocksFrom]

@[simp] theorem blocksFrom_item (offset : Nat) (k : Token) (ps : List (Piece Token)) :
    blocksFrom offset (.item k :: ps) = blocksFrom (offset + k.text.length) ps := by
  rw [blocksFrom]

theorem blocksFrom_pair (offset : Nat) (opener : Token) (body : List (Piece Token)) (closer : Token)
    (ps : List (Piece Token)) :
    blocksFrom offset (.pair opener body closer :: ps) =
      (if depth body = 0 then [blockOf offset opener body closer]
        else blocksFrom (offset + opener.text.length) body)
        ++ blocksFrom (offset + (textOf [.pair opener body closer]).length) ps := by
  rw [blocksFrom]

theorem blocksFrom_of_depth {ps : List (Piece Token)} (h : depth ps = 0) (offset : Nat) :
    blocksFrom offset ps = [] := by
  induction ps using Piece.induction generalizing offset with
  | nil => simp
  | item k ps ih =>
    rw [Nesting.depth_item] at h
    rw [blocksFrom_item, ih h]
  | pair opener body closer ps _ _ =>
    rw [Nesting.depth_pair] at h
    omega

theorem dividersFrom_cons {p : Piece Token} (h : ¬ Nesting.divides tokenRole p) (offset : Nat)
    (ps : List (Piece Token)) :
    dividersFrom offset (p :: ps) = dividersFrom (offset + (textOf [p]).length) ps := by
  cases p with
  | item k =>
    have hk : tokenRole k ≠ .divides := h
    rw [dividersFrom, if_neg hk]
    simp
  | pair opener body closer => rw [dividersFrom]

theorem dividersFrom_divider {inner : Text} (h : tokenRole (.marker inner) = .divides) (offset : Nat)
    (ps : List (Piece Token)) :
    dividersFrom offset (.item (.marker inner) :: ps) =
      Marker.ofInner inner offset ::
        dividersFrom (offset + (Token.marker inner).text.length) ps := by
  rw [dividersFrom, if_pos h]
  rfl

/-- The slices between the heads of a frame are the branches of the pair. -/
theorem branches_eq {t : Text} (head : Token) (content : List (Piece Token))
    {ps : List (Piece Token)} {m : Marker}
    (hm : headCondition m = tokenCondition head)
    (ht : Text.StandsAt t m.stop (textOf (content ++ ps))) :
    branches t (m.stop + (textOf (content ++ ps)).length)
        (m :: dividersFrom (m.stop + (textOf content).length) ps) =
      (Nesting.branchesFrom tokenRole head content ps).map fun b =>
        ⟨tokenCondition b.head, textOf b.content⟩ := by
  induction ps generalizing content head m with
  | nil =>
    rw [List.append_nil] at ht ⊢
    rw [dividersFrom, branches, ht.slice, hm]
    rfl
  | cons p ps ih =>
    by_cases hp : Nesting.divides tokenRole p
    · cases p with
      | pair => cases hp
      | item k =>
        obtain ⟨inner, rfl⟩ := exists_of_tokenRole (k := k) (by rw [show tokenRole k = _ from hp]; decide)
        rw [textOf_append] at ht
        have hnext := ht.right
        rw [textOf_item] at hnext
        rw [dividersFrom_divider hp, branches, Nesting.branchesFrom_item hp, List.map_cons]
        congr 1
        · show Branch.mk _ (Text.slice t m.stop (m.stop + (textOf content).length)) = _
          rw [ht.left.slice, hm]
        · have hi := ih (.marker inner) []
            (m := Marker.ofInner inner (m.stop + (textOf content).length)) rfl hnext.right
          rw [← hi]
          congr 1
          · simp [Marker.ofInner, Token.text]
            omega
          · rw [textOf_nil]
            rfl
    · have hi := ih head (content ++ [p]) hm (by simpa using ht)
      rw [dividersFrom_cons hp, Nesting.branchesFrom_cons hp, ← hi]
      simp [Nat.add_assoc]

/-! ## The scan -/

/-- The frames when another conditional opens inside them. -/
def nest : List Frame → List Frame
  | [] => []
  | f :: frames => { f with nested := true } :: frames

/-- The frame after a balanced body at an offset. -/
def Frame.after (f : Frame) (offset : Nat) (body : List (Piece Token)) : Frame where
  opener := f.opener
  nested := f.nested || decide (depth body ≠ 0)
  dividers := (dividersFrom offset body).reverse ++ f.dividers

section Steps

variable {t : Text} {m : Marker} {ms : List Marker} {f : Frame} {frames : List Frame}

theorem innermostFrom_opens (h : kindRole m.kind = .opens) :
    innermostFrom t frames (m :: ms) = innermostFrom t ({ opener := m } :: nest frames) ms := by
  have hk : m.kind = .ifStart := by
    cases hk : m.kind <;> simp [hk, kindRole] at h ⊢
  cases frames <;> simp [innermostFrom, hk, nest]

theorem innermostFrom_divides (h : kindRole m.kind = .divides) :
    innermostFrom t (f :: frames) (m :: ms) =
      innermostFrom t ({ f with dividers := m :: f.dividers } :: frames) ms := by
  cases hk : m.kind <;> simp [hk, kindRole] at h <;> simp [innermostFrom, hk]

theorem innermostFrom_closes (h : kindRole m.kind = .closes) :
    innermostFrom t (f :: frames) (m :: ms) =
      if f.nested then innermostFrom t frames ms else f.close t m :: innermostFrom t frames ms := by
  have hk : m.kind = .ifEnd := by
    cases hk : m.kind <;> simp [hk, kindRole] at h ⊢
  simp [innermostFrom, hk]

/-- Outside all conditionals, what closes or divides is passed over. -/
theorem innermostFrom_nil_cons (h : kindRole m.kind ≠ .opens) :
    innermostFrom t [] (m :: ms) = innermostFrom t [] ms := by
  cases hk : m.kind <;> simp [hk, kindRole] at h <;> simp [innermostFrom, hk]

end Steps

/-- The frame of an innermost pair closes to the conditional that the pair is. -/
theorem close_eq {t : Text} {offset : Nat} {opener closer : Text} {body : List (Piece Token)}
    (ht : Text.StandsAt t offset (textOf [.pair (.marker opener) body (.marker closer)])) :
    (Frame.after { opener := Marker.ofInner opener offset }
        (offset + (Token.marker opener).text.length) body).close t
      (Marker.ofInner closer (offset + (Token.marker opener).text.length + (textOf body).length)) =
      blockOf offset (.marker opener) body (.marker closer) := by
  rw [textOf_pair] at ht
  have hb := branches_eq (.marker opener) []
    (m := Marker.ofInner opener offset) rfl ht.right.left
  rw [Frame.close, blockOf]
  congr 1
  · rw [textOf_pair, textOf_nil]
    simp [Marker.ofInner, Token.text]
    omega
  · rw [Nesting.branches, ← hb]
    simp [Frame.after]
    rfl

/-- A pair inside the open frames, when the scan of its body is known. -/
theorem innermostFrom_pair {t : Text} {offset : Nat} {opener closer : Token}
    {body : List (Piece Token)} (ho : tokenRole opener = .opens) (hc : tokenRole closer = .closes)
    (ht : Text.StandsAt t offset (textOf [.pair opener body closer]))
    (hbody : ∀ f frames ms,
      innermostFrom t (f :: frames)
          (conditionalsFrom (offset + opener.text.length) (flatten body) ++ ms) =
        blocksFrom (offset + opener.text.length) body ++
          innermostFrom t (f.after (offset + opener.text.length) body :: frames) ms)
    (frames : List Frame) (ts : List Token) (ms : List Marker) :
    innermostFrom t frames (conditionalsFrom offset (opener :: (flatten body ++ closer :: ts)) ++ ms) =
      (if depth body = 0 then [blockOf offset opener body closer]
        else blocksFrom (offset + opener.text.length) body) ++
        innermostFrom t (nest frames)
          (conditionalsFrom (offset + (textOf [.pair opener body closer]).length) ts ++ ms) := by
  obtain ⟨opener, rfl⟩ := exists_of_tokenRole (k := opener) (by rw [ho]; decide)
  obtain ⟨closer, rfl⟩ := exists_of_tokenRole (k := closer) (by rw [hc]; decide)
  have hlen : offset + (textOf [.pair (.marker opener) body (.marker closer)]).length =
      offset + (Token.marker opener).text.length + (textOf body).length
        + (Token.marker closer).text.length := by
    rw [textOf_pair, textOf_nil]
    simp only [List.length_append, List.length_nil]
    omega
  rw [conditionalsFrom_marker (by rw [ho]; decide), conditionalsFrom_append,
    conditionalsFrom_marker (by rw [hc]; decide), List.cons_append,
    innermostFrom_opens ((kindRole_ofInner _ _).trans ho), List.append_assoc, hbody, List.cons_append, innermostFrom_closes ((kindRole_ofInner _ _).trans hc), hlen]
  by_cases hd : depth body = 0
  · have hf : (Frame.after { opener := Marker.ofInner opener offset }
        (offset + (Token.marker opener).text.length) body).nested = false := by
      simp [Frame.after, hd]
    rw [if_pos hd, if_neg (by simp [hf]), blocksFrom_of_depth hd]
    show Frame.close t _ _ :: _ = _
    rw [← close_eq ht]
    rfl
  · have hf : (Frame.after { opener := Marker.ofInner opener offset }
        (offset + (Token.marker opener).text.length) body).nested = true := by
      simp [Frame.after, hd]
    rw [if_neg hd, if_pos hf]
    rfl

/-- Where a pair and the pieces after it stand, its body stands behind its opener. -/
theorem standsAt_pair {t : Text} {offset : Nat} {opener closer : Token} {body ps : List (Piece Token)}
    (h : Text.StandsAt t offset (textOf (.pair opener body closer :: ps))) :
    Text.StandsAt t offset (textOf [.pair opener body closer]) ∧
      Text.StandsAt t (offset + opener.text.length) (textOf body) ∧
      Text.StandsAt t (offset + (textOf [.pair opener body closer]).length) (textOf ps) := by
  have hcons : textOf (.pair opener body closer :: ps) = textOf [.pair opener body closer] ++ textOf ps := by
    simp
  rw [hcons] at h
  have hbody := h.left
  rw [textOf_pair] at hbody
  exact ⟨h.left, hbody.right.left, h.right⟩

theorem innermostFrom_balanced {t : Text} {ps : List (Piece Token)} (h : Balanced tokenRole ps)
    {offset : Nat} (ht : Text.StandsAt t offset (textOf ps)) (f : Frame) (frames : List Frame)
    (ms : List Marker) :
    innermostFrom t (f :: frames) (conditionalsFrom offset (flatten ps) ++ ms) =
      blocksFrom offset ps ++ innermostFrom t (f.after offset ps :: frames) ms := by
  induction ps using Piece.induction generalizing offset f frames ms with
  | nil =>
    rw [Nesting.flatten_nil, blocksFrom_nil]
    congr 1
    simp [Frame.after, dividersFrom]
  | item k ps ih =>
    obtain ⟨ho, hc, h⟩ := (Nesting.balanced_item k ps).1 h
    rw [textOf_item] at ht
    have hi := ih h ht.right
    rw [Nesting.flatten_item, blocksFrom_item]
    by_cases hd : tokenRole k = .divides
    · obtain ⟨inner, rfl⟩ := exists_of_tokenRole (k := k) (by rw [hd]; decide)
      rw [conditionalsFrom_marker (by rw [hd]; decide), List.cons_append,
        innermostFrom_divides ((kindRole_ofInner _ _).trans hd), hi]
      simp [Frame.after, dividersFrom_divider hd]
    · have hp : tokenRole k = .plain := by
        cases hk : tokenRole k <;> simp_all
      rw [conditionalsFrom_plain hp, hi, Frame.after, Frame.after, Nesting.depth_item,
        dividersFrom_cons (p := .item k) hd, textOf_item, textOf_nil, List.append_nil]
  | pair opener body closer ps ihb ih =>
    obtain ⟨ho, hc, hb, h⟩ := (Nesting.balanced_pair opener body closer ps).1 h
    obtain ⟨hpair, hbody, hrest⟩ := standsAt_pair ht
    rw [Nesting.flatten_pair, innermostFrom_pair ho hc hpair (ihb hb hbody), nest, ih h hrest,
      blocksFrom_pair, List.append_assoc]
    congr 2
    simp [Frame.after, dividersFrom]

theorem innermostFrom_settled {t : Text} {frames : List Frame} {ps : List (Piece Token)}
    (h : Settled tokenRole (frames ≠ []) ps) {offset : Nat}
    (ht : Text.StandsAt t offset (textOf ps)) :
    innermostFrom t frames (conditionalsFrom offset (flatten ps)) = blocksFrom offset ps := by
  induction ps using Piece.induction generalizing offset frames with
  | nil =>
    rw [Nesting.flatten_nil, blocksFrom_nil]
    cases frames <;> rfl
  | item k ps ih =>
    obtain ⟨hc, h⟩ := (Nesting.settled_item _ k ps).1 h
    rw [textOf_item] at ht
    rw [Nesting.flatten_item, blocksFrom_item]
    cases hk : tokenRole k with
    | plain =>
      rw [conditionalsFrom_plain hk]
      exact ih (by simpa [hk] using h) ht.right
    | opens =>
      obtain ⟨inner, rfl⟩ := exists_of_tokenRole (k := k) (by rw [hk]; decide)
      rw [conditionalsFrom_marker (by rw [hk]; decide), innermostFrom_opens ((kindRole_ofInner _ _).trans hk)]
      exact ih (by simpa [hk] using h) ht.right
    | divides =>
      obtain ⟨inner, rfl⟩ := exists_of_tokenRole (k := k) (by rw [hk]; decide)
      rw [conditionalsFrom_marker (by rw [hk]; decide)]
      cases frames with
      | nil =>
        rw [innermostFrom_nil_cons (by rw [kindRole_ofInner, hk]; decide)]
        exact ih (by simpa [hk] using h) ht.right
      | cons f frames =>
        rw [innermostFrom_divides ((kindRole_ofInner _ _).trans hk)]
        exact ih (by simpa [hk] using h) ht.right
    | closes =>
      obtain ⟨inner, rfl⟩ := exists_of_tokenRole (k := k) (by rw [hk]; decide)
      obtain rfl : frames = [] := not_not.1 (hc hk)
      rw [conditionalsFrom_marker (by rw [hk]; decide),
        innermostFrom_nil_cons (by rw [kindRole_ofInner, hk]; decide)]
      exact ih (by simpa [hk] using h) ht.right
  | pair opener body closer ps _ ih =>
    obtain ⟨ho, hc, hb, h⟩ := (Nesting.settled_pair _ opener body closer ps).1 h
    obtain ⟨hpair, hbody, hrest⟩ := standsAt_pair ht
    have hpairs := innermostFrom_pair ho hc hpair
      (innermostFrom_balanced hb hbody) frames (flatten ps) []
    rw [List.append_nil, List.append_nil] at hpairs
    rw [Nesting.flatten_pair, hpairs, blocksFrom_pair]
    congr 1
    refine ih ?_ hrest
    cases frames with
    | nil => exact h
    | cons f frames => simpa [nest] using h

/-- **The innermost conditionals are the innermost pairs.** -/
theorem innermost_eq (t : Text) : innermost t = blocksFrom 0 (pieces t) := by
  have hf : flatten (pieces t) = Marker.tokens t := Nesting.flatten_pairUp tokenRole _
  have ht : textOf (pieces t) = t := by
    rw [textOf, hf, Marker.joinTokens_tokens]
  have hs : Text.StandsAt t 0 (textOf (pieces t)) := by
    rw [ht]
    exact Text.standsAt_self t
  rw [innermost, Marker.scanFor, Marker.scan_eq_locateTokens, ← hf]
  refine innermostFrom_settled ?_ hs
  simpa [pieces] using Nesting.settled_pairUp tokenRole (Marker.tokens t)

end MailMerge.Conditional
