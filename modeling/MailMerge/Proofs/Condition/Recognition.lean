import MailMerge.Proofs.Condition.Depth

/-!
# Conditions are read exactly

Every phrase is read as what it denotes, however it is nested, unless the levels run out
(`readsAs_of_denotes`). With what `Grammar` and `Depth` say of the readers this makes reading exact.

**`ofTokens_eq_ok_iff_denotes`**: tokens give a condition just if they are a sentence of the
grammar that denotes it and no deeper than the limit; all other tokens that are no deeper are a
problem, which is not their depth.
-/

namespace MailMerge.Condition

/-- Tokens that go on with a phrase of the kind, if they stand after one. -/
def Token.continues : Phrase → Token → Bool
  | _, .comparison _ => true
  | _, .textTest _ => true
  | .condition, .or => true
  | .condition, .and => true
  | .alternative, .and => true
  | _, _ => false

/-- The phrase of the kind ends before the tokens. -/
def Ends (p : Phrase) (rest : List Located) : Prop :=
  ∀ t ∈ rest.head?, t.token.continues p = false

/-- A reading that is as said, unless the levels run out. -/
def Reads (x y : Except ReadFailure (Read Condition)) : Prop :=
  x = y ∨ ∃ ts, x = .error ⟨.tooDeep, ts⟩

theorem Reads.refl (x : Except ReadFailure (Read Condition)) : Reads x x := .inl rfl

theorem Reads.trans {x y z : Except ReadFailure (Read Condition)} (h₁ : Reads x y)
    (h₂ : Reads y z) : Reads x z := by
  obtain rfl | ⟨ts, rfl⟩ := h₁
  · exact h₂
  · exact .inr ⟨ts, rfl⟩

/-- If a first step reads a phrase, what follows goes on from it. -/
theorem Reads.bind {x : Except ReadFailure (Read Condition)} {c : Condition} {rest : List Located}
    (h : Reads x (.ok (c, rest))) (f : Read Condition → Except ReadFailure (Read Condition)) :
    Reads (x >>= f) (f (c, rest)) := by
  obtain rfl | ⟨ts, rfl⟩ := h
  · exact .refl _
  · exact .inr ⟨ts, rfl⟩

/-- A chain goes on with one more part. -/
theorem reads_readChain {joint : Token} {join : Condition → Condition → Condition}
    {part : List Located → Except ReadFailure (Read Condition)} {c d : Condition} {t : Located}
    {ts rest : List Located} (most : Nat) (ht : t.token = joint)
    (h : Reads (part ts) (.ok (d, rest))) :
    Reads (readChain joint join part (most + 1) c (t :: ts))
      (readChain joint join part most (join c d) rest) := by
  rw [readChain, if_pos ht]
  exact h.bind fun r => readChain joint join part most (join c r.1) r.2

/-- A chain ends before another token than the joining one. -/
theorem readChain_of_ends {joint : Token} {join : Condition → Condition → Condition}
    {part : List Located → Except ReadFailure (Read Condition)} {c : Condition}
    {rest : List Located} (most : Nat) (h : ∀ t ∈ rest.head?, t.token ≠ joint) :
    readChain joint join part most c rest = .ok (c, rest) := by
  cases most <;> cases rest <;> simp_all [readChain]

/-- What reading makes of a phrase, whatever stands after it. After a first alternative or term
there may be more of them, so what is said of the two looser kinds is that the reader is then at
the chain's next joining token. -/
def ReadsAs : Phrase → List Token → Condition → Prop
  | .condition, us, c => ∀ n ts rest, bare ts = us → Ends .alternative rest →
      ∃ most, rest.length ≤ most ∧ Reads (readPhrase .condition (n + 1) (ts ++ rest))
        (readChain .or .or (readPhrase .alternative n) most c rest)
  | .alternative, us, c => ∀ n ts rest, bare ts = us → Ends .term rest →
      ∃ most, rest.length ≤ most ∧ Reads (readPhrase .alternative (n + 1) (ts ++ rest))
        (readChain .and .and (readPhrase .term n) most c rest)
  | p, us, c => ∀ n ts rest, bare ts = us → Ends p rest →
      Reads (readPhrase p n (ts ++ rest)) (.ok (c, rest))

theorem continues_term (t : Token) : t.continues .term = t.continues .atom := by
  cases t <;> rfl

/-- What is read to the end of its chains is read whole. -/
theorem reads_of_readsAs {p : Phrase} {us : List Token} {c : Condition} (h : ReadsAs p us c)
    (n : Nat) {ts rest : List Located} (hts : bare ts = us) (hrest : Ends p rest) :
    Reads (readPhrase p n (ts ++ rest)) (.ok (c, rest)) := by
  cases n with
  | zero => exact .inr ⟨ts ++ rest, readPhrase_zero p (ts ++ rest)⟩
  | succ n =>
    cases p with
    | condition =>
      obtain ⟨most, -, hchain⟩ := h n ts rest hts fun t ht => by
        have := hrest t ht
        revert this
        cases t.token <;> simp [Token.continues]
      rwa [readChain_of_ends most fun t ht hor => by
        simpa [hor, Token.continues] using hrest t ht] at hchain
    | alternative =>
      obtain ⟨most, -, hchain⟩ := h n ts rest hts fun t ht => by
        have := hrest t ht
        revert this
        cases t.token <;> simp [Token.continues]
      rwa [readChain_of_ends most fun t ht hand => by
        simpa [hand, Token.continues] using hrest t ht] at hchain
    | term => exact h (n + 1) ts rest hts hrest
    | atom => exact h (n + 1) ts rest hts hrest

theorem bare_eq_cons {ws : List Located} {t : Token} {us : List Token} (h : bare ws = t :: us) :
    ∃ place vs, ws = ⟨t, place⟩ :: vs ∧ bare vs = us := by
  obtain ⟨⟨_, place⟩, vs, rfl, rfl, hvs⟩ := List.map_eq_cons_iff.1 h
  exact ⟨place, vs, rfl, hvs⟩

theorem bare_eq_singleton {ws : List Located} {t : Token} (h : bare ws = [t]) :
    ∃ place, ws = [⟨t, place⟩] := by
  obtain ⟨place, vs, rfl, hvs⟩ := bare_eq_cons h
  obtain rfl : vs = [] := by simpa [bare] using hvs
  exact ⟨place, rfl⟩

theorem bare_eq_append_cons {ws : List Located} {ts us : List Token} {joint : Token}
    (h : bare ws = ts ++ joint :: us) :
    ∃ ws₁ place ws₂, ws = ws₁ ++ ⟨joint, place⟩ :: ws₂ ∧ bare ws₁ = ts ∧ bare ws₂ = us := by
  obtain ⟨ws₁, ws', rfl, h₁, h'⟩ := List.map_eq_append_iff.1 h
  obtain ⟨place, ws₂, rfl, h₂⟩ := bare_eq_cons h'
  exact ⟨ws₁, place, ws₂, rfl, h₁, h₂⟩

/-! ## Atoms -/

/-- No atom begins with `NOT`. -/
theorem Denotes.head_ne_not {ts : List Token} {c : Condition} (h : Denotes .atom ts c) :
    ts.head? ≠ some .not := by
  cases h <;> intro hnot <;> simp_all [Operand.ofToken?]

theorem Operand.ne_of_ofToken? {t : Token} {a : Operand} (h : Operand.ofToken? t = some a) :
    t ≠ .openParen ∧ t ≠ .isBlank := by
  constructor <;> rintro rfl <;> simp [Operand.ofToken?] at h

/-- An atom that begins with an operand is a comparison, a text test or the operand alone. -/
theorem readPhrase_operand {t : Token} {a : Operand} (h : Operand.ofToken? t = some a)
    (n place : Nat) (ts : List Located) :
    readPhrase .atom (n + 1) (⟨t, place⟩ :: ts) = readComparison (⟨t, place⟩ :: ts) := by
  obtain ⟨hopen, hblank⟩ := Operand.ne_of_ofToken? h
  exact readPhrase_atom n (by simp [hopen]) (by simp [hblank])

theorem readOperand_cons {t : Token} {a : Operand} (h : Operand.ofToken? t = some a)
    (place : Nat) (ts : List Located) : readOperand (⟨t, place⟩ :: ts) = .ok (a, ts) := by
  simp [readOperand, h]

theorem readComparison_compare {t u : Token} {a b : Operand} (ha : Operand.ofToken? t = some a)
    (hb : Operand.ofToken? u = some b) (op : Comparison) (i j k : Nat) (rest : List Located) :
    readComparison (⟨t, i⟩ :: ⟨.comparison op, j⟩ :: ⟨u, k⟩ :: rest) =
      .ok (.compare op a b, rest) := by
  simp [readComparison, readOperand_cons ha, readOperand_cons hb, bind, Except.bind, pure,
    Except.pure]

theorem readComparison_test {t u : Token} {a b : Operand} (ha : Operand.ofToken? t = some a)
    (hb : Operand.ofToken? u = some b) (op : TextTest) (i j k : Nat) (rest : List Located) :
    readComparison (⟨t, i⟩ :: ⟨.textTest op, j⟩ :: ⟨u, k⟩ :: rest) = .ok (.test op a b, rest) := by
  simp [readComparison, readOperand_cons ha, readOperand_cons hb, bind, Except.bind, pure,
    Except.pure]

theorem readComparison_operand {t : Token} {a : Operand} {rest : List Located}
    (ha : Operand.ofToken? t = some a) (place : Nat) (hrest : Ends .atom rest) :
    readComparison (⟨t, place⟩ :: rest) = .ok (ofOperand a, rest) := by
  simp only [readComparison, readOperand_cons ha, bind, Except.bind]
  split
  case h_1 op j ts => simp [Ends, Token.continues] at hrest
  case h_2 op j ts => simp [Ends, Token.continues] at hrest
  case h_3 => rfl

/-- An atom is read with the levels that are left, or there is none left. -/
theorem readsAs_atom {us : List Token} {c : Condition}
    (h : ∀ n ts rest, bare ts = us → Ends .atom rest →
      Reads (readPhrase .atom (n + 1) (ts ++ rest)) (.ok (c, rest))) :
    ReadsAs .atom us c := by
  intro n ts rest hts hrest
  cases n with
  | zero => exact .inr ⟨ts ++ rest, readPhrase_zero ..⟩
  | succ n => exact h n ts rest hts hrest

/-! ## Chains -/

/-- The reader of a looser kind, made of a chain of parts, reads the tokens and is then at the chain's
next joining token. -/
def StartsChain (whole part : Phrase) (joint : Token) (join : Condition → Condition → Condition)
    (us : List Token) (c : Condition) : Prop :=
  ∀ n ts rest, bare ts = us → Ends part rest →
    ∃ most, rest.length ≤ most ∧ Reads (readPhrase whole (n + 1) (ts ++ rest))
      (readChain joint join (readPhrase part n) most c rest)

section Chains

variable {whole part : Phrase} {joint : Token} {join : Condition → Condition → Condition}
  {us vs : List Token} {c d : Condition}

/-- A part by itself is the start of a chain. -/
theorem startsChain_part (hwhole : ∀ n ts, readPhrase whole (n + 1) ts = readPhrase part n ts >>= fun r =>
      readChain joint join (readPhrase part n) r.2.length r.1 r.2) (h : ReadsAs part us c) :
    StartsChain whole part joint join us c := by
  intro n ts rest hts hrest
  refine ⟨rest.length, Nat.le_refl _, ?_⟩
  rw [hwhole]
  exact (reads_of_readsAs h n hts hrest).bind fun r =>
    readChain joint join (readPhrase part n) r.2.length r.1 r.2

/-- One more part makes the start longer, for a part ends before the joining token. -/
theorem StartsChain.more (hends : joint.continues part = false)
    (h : StartsChain whole part joint join us c) (hpart : ReadsAs part vs d) :
    StartsChain whole part joint join (us ++ joint :: vs) (join c d) := by
  intro n ws rest hws hrest
  obtain ⟨ts, place, ts', rfl, hts, hts'⟩ := bare_eq_append_cons hws
  obtain ⟨most, hmost, hfirst⟩ := h n ts (⟨joint, place⟩ :: ts' ++ rest) hts (by simpa [Ends] using hends)
  obtain ⟨m, rfl⟩ : ∃ m, most = m + 1 := ⟨most - 1, by simp at hmost; omega⟩
  refine ⟨m, by simp at hmost; omega, ?_⟩
  rw [List.append_assoc]
  exact hfirst.trans (reads_readChain m rfl (reads_of_readsAs hpart n hts' hrest))

end Chains

/-! ## Phrases -/

/-- A phrase is read as what it denotes, by induction on why it does. -/
theorem readsAs_of_denotes {p : Phrase} {us : List Token} {c : Condition} (h : Denotes p us c) :
    ReadsAs p us c := by
  induction h with
  | alternative _ ih => exact startsChain_part readPhrase_condition ih
  | or _ _ ih₁ ih₂ => exact StartsChain.more rfl ih₁ ih₂
  | term _ ih => exact startsChain_part readPhrase_alternative ih
  | and _ _ ih₁ ih₂ => exact StartsChain.more rfl ih₁ ih₂
  | atom hatom ih =>
    intro n ts rest hts hrest
    cases n with
    | zero => exact .inr ⟨ts ++ rest, readPhrase_zero ..⟩
    | succ n =>
      rw [readPhrase_term]
      · exact ih n ts rest hts fun t ht => continues_term t.token ▸ hrest t ht
      · rintro ⟨place, us, hus⟩
        have hhead := hatom.head_ne_not
        rw [← hts] at hhead
        cases ts with
        | nil => exact absurd hts.symm hatom.ne_nil
        | cons t ts => simp_all
  | not _ ih =>
    intro n ws rest hws hrest
    obtain ⟨place, ts, rfl, hts⟩ := bare_eq_cons hws
    cases n with
    | zero => exact .inr ⟨_, readPhrase_zero ..⟩
    | succ n =>
      rw [List.cons_append, readPhrase_not]
      exact (ih n ts rest hts hrest).bind fun r => .ok (.not r.1, r.2)
  | parens _ ih =>
    refine readsAs_atom fun n ws rest hws hrest => ?_
    obtain ⟨place, vs, rfl, hvs⟩ := bare_eq_cons hws
    obtain ⟨ts, closePlace, us, rfl, hts, hus⟩ := bare_eq_append_cons hvs
    obtain rfl : us = [] := by simpa [bare] using hus
    rw [List.cons_append, List.append_assoc, readPhrase_openParen]
    have hclose : Ends .condition (⟨.closeParen, closePlace⟩ :: rest) := by
      simp [Ends, Token.continues]
    have hbody := reads_of_readsAs ih n hts hclose
    exact hbody.bind fun r => readToken .closeParen .closeParen r.2 >>= fun s => .ok (r.1, s.2)
  | isBlank path =>
    refine readsAs_atom fun n ws rest hws hrest => ?_
    obtain ⟨place, vs, rfl, hvs⟩ := bare_eq_cons hws
    obtain ⟨namePlace, rfl⟩ := bare_eq_singleton hvs
    exact .inl (readPhrase_isBlank ..)
  | isBlankParens path =>
    refine readsAs_atom fun n ws rest hws hrest => ?_
    obtain ⟨place, vs, rfl, hvs⟩ := bare_eq_cons hws
    obtain ⟨openPlace, vs, rfl, hvs₁⟩ := bare_eq_cons hvs
    obtain ⟨namePlace, vs, rfl, hvs₂⟩ := bare_eq_cons hvs₁
    obtain ⟨closePlace, rfl⟩ := bare_eq_singleton hvs₂
    exact .inl (readPhrase_isBlank ..)
  | operand ha =>
    refine readsAs_atom fun n ws rest hws hrest => ?_
    obtain ⟨place, rfl⟩ := bare_eq_singleton hws
    exact .inl ((readPhrase_operand ha ..).trans (readComparison_operand ha place hrest))
  | compare op ha hb =>
    refine readsAs_atom fun n ws rest hws hrest => ?_
    obtain ⟨i, vs, rfl, hvs⟩ := bare_eq_cons hws
    obtain ⟨j, vs, rfl, hvs₁⟩ := bare_eq_cons hvs
    obtain ⟨k, rfl⟩ := bare_eq_singleton hvs₁
    exact .inl ((readPhrase_operand ha ..).trans (readComparison_compare ha hb op i j k rest))
  | test op ha hb =>
    refine readsAs_atom fun n ws rest hws hrest => ?_
    obtain ⟨i, vs, rfl, hvs⟩ := bare_eq_cons hws
    obtain ⟨j, vs, rfl, hvs₁⟩ := bare_eq_cons hvs
    obtain ⟨k, rfl⟩ := bare_eq_singleton hvs₁
    exact .inl ((readPhrase_operand ha ..).trans (readComparison_test ha hb op i j k rest))

/-! ## Sentences -/

/-- Tokens of a sentence are read whole, unless the levels run out. -/
theorem reads_of_sentence {ts : List Located} {c : Condition} (h : Denotes .condition (bare ts) c) :
    Reads (readOr levels ts) (.ok (c, [])) := by
  have hend : Ends .condition [] := by simp [Ends]
  have hwhole := reads_of_readsAs (readsAs_of_denotes h) levels rfl hend
  rwa [List.append_nil] at hwhole

/-- The levels suffice just for the tokens that are no deeper. -/
theorem measured_readOr (ts : List Located) : Measured [] 4 4 ts (readOr levels ts) :=
  measured_readPhrase .condition levels (Nat.le_refl 4) rfl fun _ => rfl

theorem ofTokens_eq_ok_iff {ts : Tokens} {c : Condition} :
    ofTokens ts = .ok c ↔ ts.tokens ≠ [] ∧ readOr levels ts.tokens = .ok (c, []) := by
  unfold ofTokens
  split
  case h_1 h => simp [h]
  case h_2 first rest h =>
    rw [h]
    split <;> simp_all

theorem denotes_of_readOr {n : Nat} {ts : List Located} {c : Condition}
    (h : readOr n ts = .ok (c, [])) : Denotes .condition (bare ts) c := by
  obtain ⟨us, hts, hus⟩ := sound_readPhrase .condition n ts c [] h
  rw [List.append_nil] at hts
  rwa [hts]

/-- A sentence is read just if it is no deeper than the limit. -/
theorem readOr_of_denotes {ts : List Located} {c : Condition}
    (h : Denotes .condition (bare ts) c) :
    readOr levels ts = .ok (c, []) ↔ depth (bare ts) ≤ levels := by
  have hmeasured := measured_readOr ts
  constructor
  · intro hread
    rw [hread] at hmeasured
    obtain ⟨after, -, hafter, hfits⟩ := hmeasured
    exact hfits.2 (by simpa [depthFrom] using hafter)
  · intro hdepth
    obtain hread | ⟨rest, hread⟩ := reads_of_sentence h
    · exact hread
    · rw [hread] at hmeasured
      exact absurd rfl (hmeasured hdepth)

/-- Tokens that are no sentence are a problem, which is not their depth if they are no deeper than
the limit. -/
theorem ofTokens_of_no_sentence {ts : Tokens} (hdepth : depth (bare ts.tokens) ≤ levels)
    (hnone : ∀ c, ¬ Denotes .condition (bare ts.tokens) c) :
    ∃ p, ofTokens ts = .error p ∧ p.cause ≠ .tooDeep := by
  have hmeasured := measured_readOr ts.tokens
  unfold ofTokens
  split
  case h_1 => exact ⟨_, rfl, by simp⟩
  case h_2 first rest hts =>
    rw [← hts]
    split
    case h_1 f hread =>
      rw [hread] at hmeasured
      exact ⟨_, rfl, hmeasured hdepth⟩
    case h_2 c hread => exact absurd (denotes_of_readOr hread) (hnone c)
    case h_3 => exact ⟨_, rfl, by simp⟩

/-- **Conditions are read exactly.** Tokens give a condition just if they are a sentence of the
grammar that denotes it and no deeper than the limit. Other tokens that are no deeper are a
problem, and it is not their depth. -/
theorem ofTokens_eq_ok_iff_denotes (ts : Tokens) :
    (∀ c, ofTokens ts = .ok c ↔
      Denotes .condition (bare ts.tokens) c ∧ depth (bare ts.tokens) ≤ levels) ∧
    (depth (bare ts.tokens) ≤ levels → (∀ c, ¬ Denotes .condition (bare ts.tokens) c) →
      ∃ p, ofTokens ts = .error p ∧ p.cause ≠ .tooDeep) := by
  refine ⟨fun c => ?_, ofTokens_of_no_sentence⟩
  rw [ofTokens_eq_ok_iff]
  constructor
  · intro ⟨_, hread⟩
    have hdenotes := denotes_of_readOr hread
    exact ⟨hdenotes, (readOr_of_denotes hdenotes).1 hread⟩
  · intro ⟨hdenotes, hdepth⟩
    exact ⟨fun hnil => hdenotes.ne_nil (by simp [hnil]), (readOr_of_denotes hdenotes).2 hdepth⟩

/-- `NOT (Paid == TRUE OR ISBLANK(Note)) AND Total` denotes what it is read as, and `Paid Total` is
no condition. -/
theorem ofTokens_paid :
    ofTokens ⟨[⟨.not, 0⟩, ⟨.openParen, 4⟩, ⟨.name "Paid", 5⟩, ⟨.comparison .equal, 10⟩,
        ⟨.bool true, 13⟩, ⟨.or, 18⟩, ⟨.isBlank, 21⟩, ⟨.openParen, 28⟩, ⟨.name "Note", 29⟩,
        ⟨.closeParen, 33⟩, ⟨.closeParen, 34⟩, ⟨.and, 36⟩, ⟨.name "Total", 40⟩], 45⟩ =
      .ok (.and (.not (.or (.compare .equal (.field "Paid") (.literal (.bool true)))
        (.isBlank "Note"))) (.truthy "Total")) ∧
    ∃ p, ofTokens ⟨[⟨.name "Paid", 0⟩, ⟨.name "Total", 5⟩], 10⟩ = .error p ∧ p.cause ≠ .tooDeep := by
  constructor
  · refine ((ofTokens_eq_ok_iff_denotes _).1 _).2 ⟨?_, by decide⟩
    have hpaid : Denotes .atom [.name "Paid", .comparison .equal, .bool true] _ :=
      .compare .equal rfl rfl
    have hor : Denotes .condition _ _ := .or (hpaid.atom.term.alternative)
      (.term (.atom (.isBlankParens "Note")))
    have htotal : Denotes .atom [.name "Total"] (.truthy "Total") :=
      .operand (a := .field "Total") rfl
    exact .alternative (.and (.term (.not (.atom (.parens hor)))) (.atom htotal))
  · refine (ofTokens_eq_ok_iff_denotes _).2 (by decide) fun c h => ?_
    have hread := ((ofTokens_eq_ok_iff_denotes ⟨[⟨.name "Paid", 0⟩, ⟨.name "Total", 5⟩], 10⟩).1 c).2
      ⟨h, by decide⟩
    cases hread

end MailMerge.Condition
