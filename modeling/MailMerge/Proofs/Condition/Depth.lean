import MailMerge.Proofs.Condition.Grammar

/-!
# How deep a condition is nested

The levels of reading that the deepest token of a condition needs, counted on the tokens alone: a
token outside all parentheses needs four, each pair of parentheses around it four more, and each
`NOT` that it stands under one more. The parentheses of `ISBLANK` count for nothing.

**`measured_readPhrase`**: a reader that is given the levels that are left runs out of them just
if the tokens that it takes need more than there are.
-/

namespace MailMerge.Condition

/-- The most levels that a token of the list needs, or the end, if the next token needs those
given. `base` are the levels of the parentheses around it, without its negations, and `outer` those
of the parentheses further out. -/
def depthFrom (outer : List Nat) (base here : Nat) : List Token → Nat
  | [] => here
  | .not :: ts => depthFrom outer base (here + 1) ts
  | .isBlank :: .openParen :: ts => depthFrom (base :: outer) base here ts
  | .openParen :: ts => depthFrom (base :: outer) (here + 4) (here + 4) ts
  | .closeParen :: ts =>
    max here (depthFrom outer.tail (outer.headD base) (outer.headD base) ts)
  | .and :: ts => max here (depthFrom outer base base ts)
  | .or :: ts => max here (depthFrom outer base base ts)
  | _ :: ts => depthFrom outer base here ts

/-- The levels that the deepest token of a condition needs. -/
def depth (ts : List Token) : Nat :=
  depthFrom [] 4 4 ts

theorem le_depthFrom (outer : List Nat) (base here : Nat) (ts : List Token) :
    here ≤ depthFrom outer base here ts := by
  fun_induction depthFrom outer base here ts <;> omega

theorem depthFrom_operand {t : Token} {a : Operand} (h : Operand.ofToken? t = some a)
    (outer : List Nat) (base here : Nat) (ts : List Token) :
    depthFrom outer base here (t :: ts) = depthFrom outer base here ts := by
  cases t <;> simp_all [Operand.ofToken?, depthFrom]

theorem depthFrom_isBlank {place : Nat} {ts : List Located}
    (h : ∀ place' us, ts ≠ ⟨.openParen, place'⟩ :: us) (outer : List Nat) (base here : Nat) :
    depthFrom outer base here (bare (⟨.isBlank, place⟩ :: ts)) =
      depthFrom outer base here (bare ts) := by
  cases ts with
  | nil => simp [depthFrom]
  | cons t ts =>
    obtain ⟨token, position⟩ := t
    have htoken : token ≠ .openParen := fun h' => h position ts (by rw [h'])
    simp [depthFrom, htoken]

/-- The first level of each kind of phrase, counted from that of an atom. -/
def Phrase.rank : Phrase → Nat
  | .condition => 4
  | .alternative => 3
  | .term => 2
  | .atom => 1

/-! ## Measured readings -/

/-- The reading of tokens runs out of levels only if the tokens need more than there are, and
what it leaves needs more just if all of them did. -/
def Measured {α : Type} (outer : List Nat) (base here : Nat) (ts : List Located) :
    Except ReadFailure (Read α) → Prop
  | .ok (_, rest) => ∃ after, base ≤ after ∧ after ≤ levels ∧
      (depthFrom outer base here (bare ts) ≤ levels ↔
        depthFrom outer base after (bare rest) ≤ levels)
  | .error f => depthFrom outer base here (bare ts) ≤ levels → f.cause ≠ .tooDeep

variable {α β : Type} {outer : List Nat} {base here : Nat} {ts : List Located}

theorem measured_ok {a : α} (hbase : base ≤ here) (hlevels : here ≤ levels) :
    Measured outer base here ts (.ok (a, ts)) :=
  ⟨here, hbase, hlevels, Iff.rfl⟩

theorem measured_bind {x : Except ReadFailure (Read α)}
    {f : Read α → Except ReadFailure (Read β)} (hx : Measured outer base here ts x)
    (hf : ∀ a rest after, base ≤ after → after ≤ levels →
      Measured outer base after rest (f (a, rest))) :
    Measured outer base here ts (x >>= f) := by
  cases x with
  | error e => exact hx
  | ok r =>
    obtain ⟨a, rest⟩ := r
    obtain ⟨after, hbase, hlevels, hfits⟩ := hx
    have hrest := hf a rest after hbase hlevels
    show Measured outer base here ts (f (a, rest))
    cases hy : f (a, rest) with
    | error e =>
      rw [hy] at hrest
      exact fun h => hrest (hfits.1 h)
    | ok s =>
      rw [hy] at hrest
      obtain ⟨later, hbase', hlevels', hfits'⟩ := hrest
      exact ⟨later, hbase', hlevels', hfits.trans hfits'⟩

/-- Tokens in front may be taken first, if what follows them fits just if all of them do. -/
theorem measured_front {start : Nat} {us : List Located} {x : Except ReadFailure (Read α)}
    (hus : depthFrom outer base here (bare us) ≤ levels ↔
      depthFrom outer base start (bare ts) ≤ levels)
    (hx : Measured outer base start ts x) : Measured outer base here us x := by
  cases x with
  | error e => exact fun h => hx (hus.1 h)
  | ok r =>
    obtain ⟨after, hbase, hlevels, hfits⟩ := hx
    exact ⟨after, hbase, hlevels, hus.trans hfits⟩

theorem measured_failExpected (what : Expected) :
    Measured outer base here ts (failExpected (α := α) what ts) := by
  simp [Measured, failExpected]

theorem measured_readName (hbase : base ≤ here) (hlevels : here ≤ levels) :
    Measured outer base here ts (readName ts) := by
  fun_cases readName ts with
  | case1 path place ts => exact measured_front (by simp [depthFrom]) (measured_ok hbase hlevels)
  | case2 => exact measured_failExpected .fieldName

theorem measured_readOperand (hbase : base ≤ here) (hlevels : here ≤ levels) :
    Measured outer base here ts (readOperand ts) := by
  fun_cases readOperand ts with
  | case1 => exact measured_failExpected .operand
  | case2 t ts a h => 
    exact measured_front (by rw [bare_cons, depthFrom_operand h]) (measured_ok hbase hlevels)
  | case3 t ts h => exact measured_failExpected .operand

theorem measured_readComparison (hbase : base ≤ here) (hlevels : here ≤ levels) :
    Measured outer base here ts (readComparison ts) := by
  refine measured_bind (measured_readOperand hbase hlevels) fun a rest after hbase hlevels => ?_
  dsimp only
  split
  case h_1 op place ts =>
    have hright : Measured outer base after ts (readOperand ts) := measured_readOperand hbase hlevels
    exact measured_front (by simp [depthFrom])
      (measured_bind hright fun b rest later => measured_ok)
  case h_2 op place ts =>
    have hright : Measured outer base after ts (readOperand ts) := measured_readOperand hbase hlevels
    exact measured_front (by simp [depthFrom])
      (measured_bind hright fun b rest later => measured_ok)
  case h_3 => exact measured_ok hbase hlevels

theorem cause_of_readToken {token : Token} {what : Expected} {f : ReadFailure}
    (h : readToken token what ts = .error f) : f.cause ≠ .tooDeep := by
  revert h
  fun_cases readToken token what ts <;> simp +contextual [failExpected, eq_comm]

/-- A reading between parentheses, `us` being the tokens before it as well. -/
theorem measured_parens {inner start : Nat} {us : List Located} {x : Except ReadFailure (Read α)}
    (g : α → Condition) (hbase : base ≤ levels)
    (hus : depthFrom outer base here (bare us) = depthFrom (base :: outer) inner start (bare ts))
    (hx : Measured (base :: outer) inner start ts x) :
    Measured outer base here us
      (x >>= fun r => readToken .closeParen .closeParen r.2 >>= fun s => .ok (g r.1, s.2)) := by
  cases x with
  | error e => exact fun h => hx (hus ▸ h)
  | ok r =>
    obtain ⟨a, rest⟩ := r
    obtain ⟨after, -, hlevels, hfits⟩ := hx
    show Measured outer base here us (readToken .closeParen .closeParen rest >>= _)
    cases hclose : readToken .closeParen .closeParen rest with
    | error e =>
      intro _
      exact cause_of_readToken hclose
    | ok s =>
      obtain ⟨⟨⟩, rest'⟩ := s
      obtain ⟨place, rfl⟩ := readToken_eq_ok_iff.1 hclose
      refine ⟨base, Nat.le_refl _, hbase, ?_⟩
      rw [hus, hfits]
      simp only [bare_cons, depthFrom, List.tail_cons, List.headD_cons]
      omega

theorem measured_readBlank {place : Nat} (hbase : base ≤ here) (hlevels : here ≤ levels) :
    Measured outer base here (⟨.isBlank, place⟩ :: ts) (readBlank ts) := by
  fun_cases readBlank ts with
  | case1 openPlace ts =>
    exact measured_parens .isBlank (Nat.le_trans hbase hlevels) (by simp [depthFrom])
      (measured_readName hbase hlevels)
  | case2 ts no_paren =>
    have hname : Measured outer base here ts (readName ts) := measured_readName hbase hlevels
    exact measured_front (by rw [depthFrom_isBlank no_paren])
      (measured_bind hname fun path rest after => measured_ok)

/-- A chain of measured parts is measured, if after the joining token the next part needs the
levels of the first again. -/
theorem measured_readChain {joint : Token} {join : Condition → Condition → Condition}
    {part : List Located → Except ReadFailure (Read Condition)}
    (hjoint : ∀ here ts, depthFrom outer base here (joint :: ts) =
      max here (depthFrom outer base base ts))
    (hpart : ∀ ts, Measured outer base base ts (part ts)) (most : Nat) (left : Condition)
    (hbase : base ≤ here) (hlevels : here ≤ levels) :
    Measured outer base here ts (readChain joint join part most left ts) := by
  induction most generalizing left here ts with
  | zero => exact measured_ok hbase hlevels
  | succ most ih =>
    cases ts with
    | nil => exact measured_ok hbase hlevels
    | cons t ts =>
      rw [readChain]
      split
      case isTrue ht =>
        have hmore : Measured outer base base ts
            (part ts >>= fun r => readChain joint join part most (join left r.1) r.2) :=
          measured_bind (hpart ts) fun right rest after => ih (join left right)
        refine measured_front ?_ hmore
        rw [bare_cons, ht, hjoint]
        omega
      case isFalse ht => exact measured_ok hbase hlevels

/-- The reader of a kind of phrase runs out of the levels that are left just if its tokens need
more than there are. -/
theorem measured_readPhrase (p : Phrase) (n : Nat) (hbase : base ≤ here)
    (hn : n + here = levels + p.rank)
    (hloose : p = .condition ∨ p = .alternative → here = base) :
    Measured outer base here ts (readPhrase p n ts) := by
  induction n generalizing p outer base here ts with
  | zero =>
    rw [readPhrase_zero]
    intro h
    have hdeep := le_depthFrom outer base here (bare ts)
    cases p <;> simp only [Phrase.rank] at hn <;> omega
  | succ n ih =>
    cases p with
    | condition =>
      obtain rfl := hloose (.inl rfl)
      rw [readPhrase_condition]
      have hpart (ts) : Measured outer here here ts (readPhrase .alternative n ts) :=
        ih .alternative hbase (by simp only [Phrase.rank] at hn ⊢; omega) fun _ => rfl
      exact measured_bind (hpart ts) fun left rest after =>
        measured_readChain (fun _ _ => depthFrom.eq_def ..) hpart rest.length left
    | alternative =>
      obtain rfl := hloose (.inr rfl)
      rw [readPhrase_alternative]
      have hpart (ts) : Measured outer here here ts (readPhrase .term n ts) :=
        ih .term hbase (by simp only [Phrase.rank] at hn ⊢; omega) (by simp)
      exact measured_bind (hpart ts) fun left rest after =>
        measured_readChain (fun _ _ => depthFrom.eq_def ..) hpart rest.length left
    | term =>
      simp only [Phrase.rank] at hn
      by_cases hnot : ∃ place us, ts = ⟨.not, place⟩ :: us
      · obtain ⟨place, ts, rfl⟩ := hnot
        rw [readPhrase_not]
        have hterm : Measured outer base (here + 1) ts (readPhrase .term n ts) :=
          ih .term (by omega) (by simp only [Phrase.rank]; omega) (by simp)
        refine measured_front (by rw [bare_cons, depthFrom]) ?_
        exact measured_bind hterm fun c rest after => measured_ok
      · rw [readPhrase_term n hnot]
        exact ih .atom hbase (by simp only [Phrase.rank]; omega) (by simp)
    | atom =>
      simp only [Phrase.rank] at hn
      have hlevels : here ≤ levels := by omega
      by_cases hopen : ∃ place us, ts = ⟨.openParen, place⟩ :: us
      · obtain ⟨place, ts, rfl⟩ := hopen
        rw [readPhrase_openParen]
        exact measured_parens id (Nat.le_trans hbase hlevels) (by rw [bare_cons, depthFrom])
          (ih .condition (Nat.le_refl _) (by simp only [Phrase.rank]; omega) fun _ => rfl)
      · by_cases hblank : ∃ place us, ts = ⟨.isBlank, place⟩ :: us
        · obtain ⟨place, ts, rfl⟩ := hblank
          rw [readPhrase_isBlank]
          exact measured_readBlank hbase hlevels
        · rw [readPhrase_atom n hopen hblank]
          exact measured_readComparison hbase hlevels

end MailMerge.Condition
