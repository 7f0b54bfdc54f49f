import MailMerge.Condition.Problem
import MailMerge.Text.Class

/-!
# Cutting a condition into tokens

`lexeme` reads the token that starts with a given character; `tokenize` skips blanks and reads
tokens until the text ends. Each token is at least one character long (`length_of_lexeme`), so
this comes to an end.
-/

namespace MailMerge.Condition

/-- Why no token starts at a place. -/
inductive LexFailure where
  | cause (c : Cause)
  | fault (f : Fault)
deriving DecidableEq

/-- A comparison sign that starts with the character, and what follows it. -/
def comparison? (c : Char) (rest : Text) : Option (Comparison × Text) :=
  match c, rest with
  | '=', '=' :: after => some (.equal, after)
  | '=', after => some (.equal, after)
  | '!', '=' :: after => some (.unequal, after)
  | '>', '=' :: after => some (.greaterOrEqual, after)
  | '>', after => some (.greater, after)
  | '<', '=' :: after => some (.lessOrEqual, after)
  | '<', '>' :: after => some (.unequal, after)
  | '<', after => some (.less, after)
  | _, _ => none

/-- The token that starts with a character which is not blank, and what follows it. -/
def lexeme (c : Char) (rest : Text) : Except LexFailure (Token × Text) :=
  if c = '(' then .ok (.openParen, rest)
  else if c = ')' then .ok (.closeParen, rest)
  else
    match comparison? c rest with
    | some (op, after) => .ok (.comparison op, after)
    | none =>
      match number? (c :: rest) with
      | some (.ok n, after) => .ok (.number n, after)
      | some (.error fault, _) => .error (.fault fault)
      | none =>
        if c = '\'' ∨ c = '"' then
          match quoted? c rest with
          | some (t, after) => .ok (.string t, after)
          | none => .error (.cause .unterminatedText)
        else if isNameStart c then
          let (word, after) := takeWord rest
          .ok (.ofWord (c :: word), after)
        else
          .error (.cause (.unexpectedCharacter c))

/-! ## Progress -/

theorem length_of_comparison? {c : Char} {rest after : Text} {op : Comparison}
    (h : comparison? c rest = some (op, after)) : after.length ≤ rest.length := by
  unfold comparison? at h
  split at h <;> simp at h <;> obtain ⟨rfl, rfl⟩ := h <;> simp

theorem length_of_quoted? {quote : Char} {t word after : Text}
    (h : quoted? quote t = some (word, after)) : after.length ≤ t.length := by
  fun_induction quoted? quote t generalizing word with
  | case1 => simp at h
  | case2 => simp at h; simp [h]
  | case3 => simp at h
  | case4 => simp at h; simp [← h.2]
  | case5 => simp at h
  | case6 d rest _ _ ih =>
    obtain ⟨⟨w, a⟩, hw, he⟩ := Option.map_eq_some_iff.1 h
    simp only [Prod.mk.injEq] at he
    obtain ⟨_, rfl⟩ := he
    have := ih hw
    simp only [List.length_cons]
    omega
  | case7 c d rest _ _ ih =>
    obtain ⟨⟨w, a⟩, hw, he⟩ := Option.map_eq_some_iff.1 h
    simp only [Prod.mk.injEq] at he
    obtain ⟨_, rfl⟩ := he
    have := ih hw
    simp only [List.length_cons] at this ⊢
    omega

theorem length_takeWhile_dropWhile (p : Char → Bool) (t : Text) :
    (t.takeWhile p).length + (t.dropWhile p).length = t.length := by
  rw [← List.length_append, List.takeWhile_append_dropWhile]

theorem length_takeFraction (t : Text) :
    (takeFraction t).1.length + (takeFraction t).2.length ≤ t.length := by
  unfold takeFraction
  split
  · next rest =>
    split
    · have := length_takeWhile_dropWhile Text.isDecimalDigit rest
      simp only [List.length_cons]
      omega
    · simp
  · simp

theorem length_of_unsigned? {negative : Bool} {t after : Text} {n : Except Fault Number}
    (h : unsigned? negative t = some (n, after)) : after.length < t.length := by
  have hs := length_takeWhile_dropWhile Text.isDecimalDigit t
  have hf := length_takeFraction (t.dropWhile Text.isDecimalDigit)
  simp only [unsigned?] at h
  split at h
  · simp at h
  · next hne =>
    simp only [Option.some.injEq, Prod.mk.injEq] at h
    rw [h.2] at hf
    simp only [Bool.or_eq_true, not_or, Bool.and_eq_true, List.isEmpty_iff] at hne
    have : 0 < (t.takeWhile Text.isDecimalDigit).length
        + (takeFraction (t.dropWhile Text.isDecimalDigit)).1.length := by
      rcases Nat.eq_zero_or_pos (t.takeWhile Text.isDecimalDigit).length with h₁ | h₁
      · rcases Nat.eq_zero_or_pos (takeFraction (t.dropWhile Text.isDecimalDigit)).1.length
          with h₂ | h₂
        · exact absurd ⟨List.length_eq_zero_iff.1 h₁, List.length_eq_zero_iff.1 h₂⟩ hne.1
        · omega
      · omega
    omega

theorem length_of_number? {c : Char} {rest after : Text} {n : Except Fault Number}
    (h : number? (c :: rest) = some (n, after)) : after.length ≤ rest.length := by
  unfold number? at h
  split at h
  · next he =>
    simp only [List.cons.injEq] at he
    obtain ⟨_, rfl⟩ := he
    exact Nat.le_of_lt (length_of_unsigned? h)
  · exact Nat.le_of_lt_succ (length_of_unsigned? h)

theorem length_of_lexeme {c : Char} {rest after : Text} {token : Token}
    (h : lexeme c rest = .ok (token, after)) : after.length ≤ rest.length := by
  unfold lexeme at h
  split at h
  · simp only [Except.ok.injEq, Prod.mk.injEq] at h
    exact Nat.le_of_eq (congrArg List.length h.2.symm)
  split at h
  · simp only [Except.ok.injEq, Prod.mk.injEq] at h
    exact Nat.le_of_eq (congrArg List.length h.2.symm)
  split at h
  · next hc =>
    simp only [Except.ok.injEq, Prod.mk.injEq] at h
    rw [← h.2]; exact length_of_comparison? hc
  split at h
  · next hn =>
    simp only [Except.ok.injEq, Prod.mk.injEq] at h
    rw [← h.2]; exact length_of_number? hn
  · simp at h
  split at h
  · split at h
    · next hq =>
      simp only [Except.ok.injEq, Prod.mk.injEq] at h
      rw [← h.2]; exact length_of_quoted? hq
    · simp at h
  split at h
  · simp only [Except.ok.injEq, Prod.mk.injEq] at h
    rw [← h.2]
    have := congrArg List.length (takeWord_append rest)
    simp only [List.length_append] at this
    omega
  · simp at h

/-! ## Tokens -/

/-- The tokens of the end of a text of `total` characters. -/
def tokensFrom (total : Nat) (t : Text) : Except Failure (List Located) :=
  match t with
  | [] => .ok []
  | c :: rest =>
    if Text.isBlank c then tokensFrom total rest
    else
      let position := total - (rest.length + 1)
      match _h : lexeme c rest with
      | .error (.cause cause) => .error (.problem { cause, position := some position })
      | .error (.fault fault) => .error (.fault fault)
      | .ok (token, after) => do
        let tokens ← tokensFrom total after
        return { token, position } :: tokens
  termination_by t.length
  decreasing_by
    · simp
    · have := length_of_lexeme _h
      simp only [List.length_cons]
      omega

/-- The tokens of a condition. -/
def tokenize (condition : Text) : Except Failure Tokens := do
  return { tokens := ← tokensFrom condition.length condition, stop := condition.length }

end MailMerge.Condition
