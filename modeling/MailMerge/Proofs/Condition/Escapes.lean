import MailMerge.Condition.Evaluation
import MailMerge.Proofs.Value.Faults

/-!
# What escapes the evaluation of a condition

A condition that cannot be read or evaluated counts as false and is reported. A fault is not caught:
it ends the evaluation. Faults are met in two places.

**Reading** (`LongLiteral`). The lexer comes to a whole number with more digits than can be converted.

**Evaluation** (`Meets`). The evaluation comes to a path that strays from the given values, to a value
that has no text or no number and is asked for one, or to two values that cannot be compared. What it
comes to depends on the parts that it has evaluated before: the right side of `OR` is reached if the left
one does not hold.

**`holdsOrReports_outcome`**: a condition ends in a fault just if a fault escapes; in all other cases it
has the value of `evaluate` without a report, or is false with one.
-/

namespace MailMerge.Condition

/-! ## Long literals -/

/-- The text starts with a whole number that has too many digits. -/
def StartsLong (t : Text) : Prop :=
  ∃ digits after, (t = digits ++ after ∨ t = '-' :: (digits ++ after)) ∧
    (∀ c ∈ digits, Text.isDecimalDigit c) ∧ Numeral.maxDigits < digits.length ∧
    ∀ c ∈ after.head?, Text.isDecimalDigit c = false ∧ Text.isWordChar c = false ∧ c ≠ '.'

/-- The lexer comes to a whole number that has too many digits. -/
inductive LongLiteral : Text → Prop
  | here {c : Char} {rest : Text} : Text.isBlank c = false → StartsLong (c :: rest) →
      LongLiteral (c :: rest)
  | blank {c : Char} {rest : Text} : Text.isBlank c → LongLiteral rest → LongLiteral (c :: rest)
  | token {c : Char} {rest after : Text} {token : Token} : Text.isBlank c = false →
      lexeme c rest = .ok (token, after) → LongLiteral after → LongLiteral (c :: rest)

/-- A run of digits is all that is taken from a text if no digit follows it. -/
theorem takeWhile_digits {digits after : Text} (hd : ∀ c ∈ digits, Text.isDecimalDigit c)
    (ha : ∀ c ∈ after.head?, Text.isDecimalDigit c = false) :
    (digits ++ after).takeWhile Text.isDecimalDigit = digits ∧
      (digits ++ after).dropWhile Text.isDecimalDigit = after := by
  rw [List.takeWhile_append_of_pos hd, List.dropWhile_append_of_pos hd]
  cases after with
  | nil => simp
  | cons c after => simp [ha c rfl]

theorem numberOf_eq_error_iff {negative : Bool} {whole fraction : Text} {f : Fault} :
    numberOf negative whole fraction = .error f ↔
      f = .longNumeral ∧ fraction = [] ∧ Numeral.maxDigits < whole.length := by
  unfold numberOf
  cases fraction with
  | nil =>
    rw [List.isEmpty_nil, if_pos rfl]
    split
    · next hlen => exact iff_of_false nofun fun h => absurd h.2.2 (Nat.not_lt_of_le hlen)
    · next hlen =>
      rw [Except.error.injEq, eq_comm]
      exact ⟨fun h => ⟨h, rfl, Nat.lt_of_not_le hlen⟩, And.left⟩
  | cons c fraction => exact iff_of_false nofun nofun

/-- Nothing is taken from a text that starts with no fraction. -/
theorem takeFraction_snd {t : Text} (h : (takeFraction t).1 = []) : (takeFraction t).2 = t := by
  fun_cases takeFraction t with
  | case1 rest hrest =>
    rw [takeFraction, if_pos hrest] at h
    cases rest with
    | nil => cases hrest
    | cons c rest =>
      rw [List.takeWhile_cons_of_pos (by simpa using hrest)] at h
      cases h
  | case2 rest hrest => rfl
  | case3 t hpoint => rfl

theorem takeFraction_of_head {t : Text} (h : ∀ c ∈ t.head?, c ≠ '.') : takeFraction t = ([], t) := by
  unfold takeFraction
  split
  · next rest => exact absurd rfl (h '.' rfl)
  · rfl

/-- A run of digits is a number if no digit, other word character or point follows it. -/
theorem unsigned?_digits {digits after : Text} (hne : digits ≠ [])
    (hd : ∀ c ∈ digits, Text.isDecimalDigit c)
    (ha : ∀ c ∈ after.head?, Text.isDecimalDigit c = false ∧ Text.isWordChar c = false ∧ c ≠ '.')
    (negative : Bool) :
    unsigned? negative (digits ++ after) = some (numberOf negative digits [], after) := by
  obtain ⟨htake, hdrop⟩ := takeWhile_digits hd fun c hc => (ha c hc).1
  have hstop : after.head?.any (fun c => Text.isWordChar c || c == '.') = false := by
    cases after with
    | nil => rfl
    | cons c after => simp [ha c rfl]
  simp only [unsigned?]
  rw [htake, hdrop, takeFraction_of_head fun c hc => (ha c hc).2.2, hstop, if_neg (by simpa using hne)]

theorem unsigned?_eq_error_iff {negative : Bool} {t after : Text} {f : Fault} :
    unsigned? negative t = some (.error f, after) ↔
      f = .longNumeral ∧ ∃ digits, t = digits ++ after ∧ (∀ c ∈ digits, Text.isDecimalDigit c) ∧
        Numeral.maxDigits < digits.length ∧
        ∀ c ∈ after.head?, Text.isDecimalDigit c = false ∧ Text.isWordChar c = false ∧ c ≠ '.' := by
  constructor
  · intro h
    simp only [unsigned?] at h
    split at h
    · cases h
    · next hnone =>
      simp only [Option.some.injEq, Prod.mk.injEq, numberOf_eq_error_iff] at h
      obtain ⟨⟨rfl, hfraction, hlen⟩, hafter⟩ := h
      rw [takeFraction_snd hfraction] at hafter hnone
      subst hafter
      have hdigits := List.all_takeWhile (p := Text.isDecimalDigit) (l := t)
      refine ⟨rfl, t.takeWhile Text.isDecimalDigit, List.takeWhile_append_dropWhile.symm,
        List.all_eq_true.1 hdigits, hlen, fun c hc => ?_⟩
      have hdigit : Text.isDecimalDigit c = false := by
        have := List.head?_dropWhile_not Text.isDecimalDigit t
        simp_all
      simp only [Bool.or_eq_true, not_or, Option.any_eq_true, not_exists, not_and] at hnone
      have hend := hnone.2 c hc
      rw [beq_iff_eq] at hend
      exact ⟨hdigit, by simpa using hend.1, hend.2⟩
  · rintro ⟨rfl, digits, rfl, hdigits, hlen, hend⟩
    have hne : digits ≠ [] := by
      rintro rfl
      exact absurd hlen (Nat.not_lt_zero _)
    rw [unsigned?_digits hne hdigits hend, numberOf_eq_error_iff.2 ⟨rfl, rfl, hlen⟩]

/-- Reading a number fails just if it is a whole one with too many digits. -/
theorem number?_eq_error_iff {t : Text} {f : Fault} :
    (∃ after, number? t = some (.error f, after)) ↔ f = .longNumeral ∧ StartsLong t := by
  have hminus : Text.isDecimalDigit '-' = false := by decide
  unfold StartsLong
  fun_cases number? t with
  | case1 t =>
    simp only [unsigned?_eq_error_iff, exists_and_left]
    refine and_congr_right fun _ => ⟨fun ⟨after, digits, ht, h⟩ => ?_, ?_⟩
    · exact ⟨digits, after, .inr (by rw [ht]), h⟩
    · rintro ⟨digits, after, ht | ht, hdigits, hlen, hend⟩
      · cases digits with
        | nil => exact absurd hlen (Nat.not_lt_zero _)
        | cons c digits =>
          obtain ⟨rfl, -⟩ := List.cons.inj ht
          rw [hdigits _ List.mem_cons_self] at hminus
          cases hminus
      · exact ⟨after, digits, (List.cons.inj ht).2, hdigits, hlen, hend⟩
  | case2 t hne =>
    simp only [unsigned?_eq_error_iff, exists_and_left]
    refine and_congr_right fun _ => ⟨fun ⟨after, digits, ht, h⟩ => ⟨digits, after, .inl ht, h⟩, ?_⟩
    rintro ⟨digits, after, ht | ht, h⟩
    · exact ⟨after, digits, ht, h⟩
    · exact absurd ht (hne _)

/-- A long whole number starts with a minus sign or a digit. -/
theorem StartsLong.head {c : Char} {rest : Text} (h : StartsLong (c :: rest)) :
    c = '-' ∨ Text.isDecimalDigit c := by
  obtain ⟨digits, after, ht | ht, hdigits, hlen, -⟩ := h
  · cases digits with
    | nil => exact absurd hlen (Nat.not_lt_zero _)
    | cons d digits =>
      rw [(List.cons.inj ht).1]
      exact .inr (hdigits d List.mem_cons_self)
  · exact .inl (List.cons.inj ht).1

/-- A token that starts with a minus sign or a digit is a number. -/
theorem lexeme_of_numeral {c : Char} (h : c = '-' ∨ Text.isDecimalDigit c) {rest after : Text}
    {n : Except Fault Number} (hn : number? (c :: rest) = some (n, after)) :
    lexeme c rest = (n.mapError .fault).map fun n => (.number n, after) := by
  have hopen : c ≠ '(' := by rintro rfl; exact absurd h (by decide)
  have hclose : c ≠ ')' := by rintro rfl; exact absurd h (by decide)
  have hsign : comparison? c rest = none := by
    fun_cases comparison? c rest <;> first | rfl | exact absurd h (by decide)
  rw [lexeme, if_neg hopen, if_neg hclose, hsign, hn]
  cases n <;> rfl

theorem lexeme_eq_fault_iff {c : Char} {rest : Text} {f : Fault} :
    lexeme c rest = .error (.fault f) ↔ f = .longNumeral ∧ StartsLong (c :: rest) := by
  constructor
  · intro h
    unfold lexeme at h
    split at h
    · cases h
    split at h
    · cases h
    split at h
    · cases h
    split at h
    · cases h
    · next after hnumber =>
      obtain rfl := LexFailure.fault.inj (Except.error.inj h)
      exact number?_eq_error_iff.1 ⟨_, hnumber⟩
    split at h
    · split at h <;> cases h
    split at h <;> cases h
  · rintro ⟨rfl, hlong⟩
    obtain ⟨after, hnumber⟩ := number?_eq_error_iff.2 ⟨rfl, hlong⟩
    exact lexeme_of_numeral hlong.head hnumber

theorem longLiteral_of_blank {c : Char} {rest : Text} (hc : Text.isBlank c) :
    LongLiteral (c :: rest) ↔ LongLiteral rest := by
  refine ⟨fun h => ?_, .blank hc⟩
  cases h with
  | blank _ h => exact h
  | here hc' | token hc' => rw [hc] at hc'; cases hc'

theorem longLiteral_of_ink {c : Char} {rest : Text} (hc : Text.isBlank c = false) :
    LongLiteral (c :: rest) ↔ lexeme c rest = .error (.fault .longNumeral) ∨
      ∃ token after, lexeme c rest = .ok (token, after) ∧ LongLiteral after := by
  rw [lexeme_eq_fault_iff]
  constructor
  · intro h
    cases h with
    | here _ h => exact .inl ⟨rfl, h⟩
    | token _ hl h => exact .inr ⟨_, _, hl, h⟩
    | blank hc' => rw [hc] at hc'; cases hc'
  · rintro (⟨-, h⟩ | ⟨token, after, hl, h⟩)
    · exact .here hc h
    · exact .token hc hl h

/-- **Cutting a text into tokens fails in a fault just if it comes to a long literal.** -/
theorem tokensFrom_eq_fault_iff {total : Nat} {t : Text} {f : Fault} :
    tokensFrom total t = .error (.fault f) ↔ f = .longNumeral ∧ LongLiteral t := by
  fun_induction tokensFrom total t with
  | case1 => exact iff_of_false nofun fun h => nomatch h.2
  | case2 c rest hblank ih => rw [ih, longLiteral_of_blank hblank]
  | case3 c rest hblank position cause hlexeme =>
    rw [longLiteral_of_ink (by simpa using hblank), hlexeme]
    simp
  | case4 c rest hblank fault hlexeme =>
    obtain ⟨rfl, -⟩ := lexeme_eq_fault_iff.1 hlexeme
    rw [longLiteral_of_ink (by simpa using hblank), hlexeme]
    simp [eq_comm]
  | case5 c rest hblank position token after hlexeme ih =>
    rw [longLiteral_of_ink (by simpa using hblank), hlexeme, bind_eq_error_iff, ih]
    simp [pure, Except.pure]

theorem parse_eq_fault_iff {text : Text} {f : Fault} :
    parse text = .error (.fault f) ↔ f = .longNumeral ∧ LongLiteral text := by
  have htokens : tokenize text = .error (.fault f) ↔ f = .longNumeral ∧ LongLiteral text := by
    rw [tokenize, bind_eq_error_iff, tokensFrom_eq_fault_iff]
    simp [pure, Except.pure]
  rw [parse, bind_eq_error_iff, htokens]
  refine or_iff_left ?_
  rintro ⟨ts, -, h⟩
  cases hts : ofTokens ts <;> rw [hts] at h <;> cases h

/-! ## Evaluation -/

/-- The field of an operand cannot be looked up in the value. -/
def Operand.Strays (v : Value) (f : Fault) : Operand → Prop
  | literal _ => False
  | field path => (∃ entries, v = .record entries) ∧ v.Strays path f

theorem Operand.value_eq_error_iff {v : Value} {o : Operand} {f : Fault} :
    o.value v.field = .error f ↔ o.Strays v f := by
  cases o with
  | literal w => exact iff_of_false nofun id
  | field path =>
    rw [value, bind_eq_error_iff, Value.field_eq_error_iff]
    refine or_iff_left ?_
    rintro ⟨w, -, h⟩
    cases w <;> cases h

/-- Two values cannot be compared as asked: by a text that one of them does not have, or by their
numbers, of which the left one is taken first. -/
def Unfit (op : Comparison) (l r : Value) (f : Fault) : Prop :=
  match op with
  | .equal | .unequal => f = .longNumeral ∧ l.Incomparable r
  | _ => l.HasNoNumber f ∨ (∀ f', ¬ l.HasNoNumber f') ∧ r.HasNoNumber f

theorem forall_not_iff_exists_ok {ε α : Type} {x : Except ε α} {P : ε → Prop}
    (h : ∀ e, x = .error e ↔ P e) : (∀ e, ¬ P e) ↔ ∃ a, x = .ok a := by
  simp only [← h]
  cases x <;> simp

theorem toNumbers_eq_error_iff {l r : Value} {g : Binary64 → Binary64 → Bool} {f : Fault} :
    (do let x ← l.toNumber; let y ← r.toNumber; return g x y : Except Fault Bool) = .error f ↔
      l.HasNoNumber f ∨ (∀ f', ¬ l.HasNoNumber f') ∧ r.HasNoNumber f := by
  rw [bind_eq_error_iff, Value.toNumber_eq_error_iff,
    forall_not_iff_exists_ok fun _ => Value.toNumber_eq_error_iff, ← Value.toNumber_eq_error_iff (v := r)]
  refine or_congr_right ?_
  rw [← exists_and_right]
  refine exists_congr fun x => and_congr_right fun _ => ?_
  rw [bind_eq_error_iff]
  simp [pure, Except.pure]

theorem compareValues_eq_error_iff {op : Comparison} {l r : Value} {f : Fault} :
    compareValues op l r = .error f ↔ Unfit op l r f := by
  cases op with
  | equal => exact Value.looseEquals_eq_error_iff
  | unequal =>
    rw [compareValues, bind_eq_error_iff, Value.looseEquals_eq_error_iff]
    simp [pure, Except.pure, Unfit]
  | greater | less | greaterOrEqual | lessOrEqual => exact toNumbers_eq_error_iff

theorem toTexts_eq_error_iff {l : Value} {right : Except Fault Value} {g : Text → Text → Bool}
    {f : Fault} {P : Prop} (hright : right = .error f ↔ P) :
    (do let x ← l.toText; let y ← (← right).toText; return g x y : Except Fault Bool) = .error f ↔
      f = .longNumeral ∧ l.IsUnprintable ∨ ¬ l.IsUnprintable ∧
        (P ∨ ∃ r, right = .ok r ∧ f = .longNumeral ∧ r.IsUnprintable) := by
  have hl : ¬ l.IsUnprintable ↔ ∃ x, l.toText = .ok x := by
    rw [← forall_not_iff_exists_ok fun _ => Value.toText_eq_error_iff]
    simp
  rw [bind_eq_error_iff, Value.toText_eq_error_iff, hl, ← exists_and_right]
  refine or_congr_right (exists_congr fun x => and_congr_right fun _ => ?_)
  rw [bind_eq_error_iff, hright]
  refine or_congr_right (exists_congr fun r => and_congr_right fun _ => ?_)
  rw [bind_eq_error_iff, Value.toText_eq_error_iff]
  simp [pure, Except.pure]

/-- The evaluation of a condition meets a fault. -/
def Meets (v : Value) (f : Fault) : (levels : Nat) → Condition → Prop
  | n + 2, .or left right =>
    Meets v f n left ∨ holds v.field n left = .ok false ∧ Meets v f n right
  | n + 2, .and left right =>
    Meets v f n left ∨ holds v.field n left = .ok true ∧ Meets v f n right
  | n + 2, .not operand => Meets v f n operand
  | _, .or _ _ => False
  | _, .and _ _ => False
  | _, .not _ => False
  | _, .compare op left right =>
    left.Strays v f ∨ ∃ l, left.value v.field = .ok l ∧
      (right.Strays v f ∨ ∃ r, right.value v.field = .ok r ∧ Unfit op l r f)
  | _, .test _ left right =>
    left.Strays v f ∨ ∃ l, left.value v.field = .ok l ∧
      (f = .longNumeral ∧ l.IsUnprintable ∨ ¬ l.IsUnprintable ∧
        (right.Strays v f ∨ ∃ r, right.value v.field = .ok r ∧ f = .longNumeral ∧ r.IsUnprintable))
  | _, .isBlank path => (Operand.field path).Strays v f
  | _, .truthy path => (Operand.field path).Strays v f
  | _, .literal _ => False

theorem lift_eq_fault_iff {r : Except Fault Bool} {f : Fault} :
    holds.lift r = .error (.fault f) ↔ r = .error f := by
  cases r <;> simp [holds.lift, Except.mapError]

theorem field_eq_error_iff {v : Value} {path : Text} {g : Value → Bool} {f : Fault} :
    (do return g (← (Operand.field path).value v.field) : Except Fault Bool) = .error f ↔
      (Operand.field path).Strays v f := by
  rw [bind_eq_error_iff, Operand.value_eq_error_iff]
  simp [pure, Except.pure]

theorem bind_eq_fault_iff {x : Except Failure Bool} {g : Bool → Except Failure Bool} {f : Fault} :
    x >>= g = .error (.fault f) ↔ x = .error (.fault f) ∨ x = .ok true ∧ g true = .error (.fault f) ∨
      x = .ok false ∧ g false = .error (.fault f) := by
  rw [bind_eq_error_iff, Bool.exists_bool, or_comm (b := x = .ok true ∧ _)]

theorem lt_two_of_forall_ne {n : Nat} (hn : ∀ m, n = m + 2 → False) : n < 2 := by
  obtain _ | _ | n := n
  · decide
  · decide
  · exact (hn n rfl).elim

section Levels

variable (fields : Fields) (n : Nat)

theorem holds_or (left right : Condition) :
    holds fields (n + 2) (.or left right) =
      (holds fields n left >>= fun b => if b then pure true else holds fields n right) := by
  rw [holds, if_neg (by omega)]
  rfl

theorem holds_and (left right : Condition) :
    holds fields (n + 2) (.and left right) =
      (holds fields n left >>= fun b => if b then holds fields n right else pure false) := by
  rw [holds, if_neg (by omega)]
  rfl

theorem holds_not (operand : Condition) :
    holds fields (n + 2) (.not operand) = (holds fields n operand >>= fun b => pure !b) := by
  rw [holds, if_neg (by omega)]
  rfl

end Levels

/-- **The evaluation of a condition fails in a fault just if it meets that fault.** -/
theorem holds_eq_fault_iff {v : Value} {f : Fault} (n : Nat) (c : Condition) :
    holds v.field n c = .error (.fault f) ↔ Meets v f n c := by
  fun_induction Meets v f n c with
  | case1 n left right ihl ihr =>
    rw [holds_or, bind_eq_fault_iff, ihl]
    simp [pure, Except.pure, ihr]
  | case2 n left right ihl ihr =>
    rw [holds_and, bind_eq_fault_iff, ihl]
    simp [pure, Except.pure, ihr]
  | case3 n operand ih =>
    rw [holds_not, bind_eq_fault_iff, ih]
    simp [pure, Except.pure]
  | case4 n left right hn =>
    rw [holds, if_pos (lt_two_of_forall_ne hn)]
    exact iff_of_false nofun id
  | case5 n left right hn =>
    rw [holds, if_pos (lt_two_of_forall_ne hn)]
    exact iff_of_false nofun id
  | case6 n operand hn =>
    rw [holds, if_pos (lt_two_of_forall_ne hn)]
    exact iff_of_false nofun id
  | case7 n op left right =>
    rw [holds, lift_eq_fault_iff, bind_eq_error_iff, Operand.value_eq_error_iff]
    refine or_congr_right (exists_congr fun l => and_congr_right fun _ => ?_)
    rw [bind_eq_error_iff, Operand.value_eq_error_iff]
    refine or_congr_right (exists_congr fun r => and_congr_right fun _ => ?_)
    exact compareValues_eq_error_iff
  | case8 n op left right =>
    rw [holds, lift_eq_fault_iff, bind_eq_error_iff, Operand.value_eq_error_iff]
    refine or_congr_right (exists_congr fun l => and_congr_right fun _ => ?_)
    exact toTexts_eq_error_iff Operand.value_eq_error_iff
  | case9 n path => rw [holds, lift_eq_fault_iff, field_eq_error_iff]
  | case10 n path => rw [holds, lift_eq_fault_iff, field_eq_error_iff]
  | case11 n w => rw [holds]; exact iff_of_false nofun id

/-! ## The outcome -/

/-- A fault escapes when a text is evaluated as a condition on a value. -/
def Escapes (v : Value) (text : Text) (f : Fault) : Prop :=
  f = .longNumeral ∧ LongLiteral (Text.trim text) ∨
    ∃ c, parse (Text.trim text) = .ok c ∧ Meets v f levels c

theorem mapError_toTrouble_eq_fault_iff {α : Type} {x : Except Failure α} {text : Text} {f : Fault} :
    x.mapError (Failure.toTrouble text) = .error (.fault f) ↔ x = .error (.fault f) := by
  obtain ⟨_ | _⟩ | _ := x <;> simp [Except.mapError, Failure.toTrouble]

theorem mapError_eq_ok_iff {ε ε' α : Type} {x : Except ε α} {g : ε → ε'} {a : α} :
    x.mapError g = .ok a ↔ x = .ok a := by
  cases x <;> simp [Except.mapError]

theorem evaluate_eq_fault_iff {v : Value} {text : Text} {f : Fault} :
    evaluate v.field text = .error (.fault f) ↔ Escapes v text f := by
  unfold evaluate Escapes
  simp only [bind_eq_error_iff, mapError_toTrouble_eq_fault_iff, mapError_eq_ok_iff, parse_eq_fault_iff,
    holds_eq_fault_iff]

end MailMerge.Condition
