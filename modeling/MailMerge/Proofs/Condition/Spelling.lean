import MailMerge.Proofs.Condition.Escapes
import MailMerge.Proofs.Condition.Recognition
import MailMerge.Proofs.Text.Calm
import MailMerge.Proofs.Text.Cut

/-!
# Tokens in writing

Each token can be spelled as a text: a parenthesis, a sign, a word, the digits of a whole number, or a
text in quotes with the quotes in it and the backslashes escaped. A spelled token that the text ends
with, or that is followed by a space, is read as that token.

**`lexeme_spelled`**: one token is read from its spelling.

**`tokenize_spelled`**: tokens that are spelled with single spaces between them are cut into the same
tokens, each at the offset of its spelling.
-/

namespace MailMerge.Condition

/-! ## Spellings -/

/-- The text with a backslash before each quote and each backslash. -/
def escape (quote : Char) (t : Text) : Text :=
  t.flatMap fun c => if c = quote ∨ c = '\\' then ['\\', c] else [c]

/-- A name, or several ones with points between them. -/
def IsWord (w : Text) : Prop :=
  ∃ (c : Char) (head : Text) (steps : List Text), isNameStart c ∧ (∀ d ∈ head, isNameChar d) ∧
    (∀ s ∈ steps, s ≠ [] ∧ ∀ d ∈ s, isNameChar d) ∧ w = c :: (head ++ steps.flatMap ('.' :: ·))

/-- The ways to write a token. -/
inductive Spells : Token → Text → Prop
  | openParen : Spells .openParen "("
  | closeParen : Spells .closeParen ")"
  | sign (op : Comparison) : Spells (.comparison op) op.sign
  | equalSign : Spells (.comparison .equal) "="
  | unequalSign : Spells (.comparison .unequal) "<>"
  | keyword {w : Text} {t : Token} : IsWord w → keywords.lookup (Text.upper w) = some t → Spells t w
  | name {w : Text} : IsWord w → keywords.lookup (Text.upper w) = none → Spells (.name w) w
  | whole {n : Int} : (Text.ofNat n.natAbs).length ≤ Numeral.maxDigits →
      Spells (.number (.whole n)) (Text.ofInt n)
  | string {quote : Char} (t : Text) : quote = '\'' ∨ quote = '"' →
      Spells (.string t) (quote :: (escape quote t ++ [quote]))

/-- Nothing, or a space first. -/
def Separated (rest : Text) : Prop :=
  ∀ c ∈ rest.head?, c = ' '

/-! ## Words -/

theorem takeWord_of_forall {run : Text} (h : ∀ c ∈ run, isNameChar c) (t : Text) :
    takeWord (run ++ t) = (run ++ (takeWord t).1, (takeWord t).2) := by
  induction run with
  | nil => rfl
  | cons c run ih =>
    rw [List.forall_mem_cons] at h
    rw [List.cons_append, takeWord, if_pos (by simp [h.1]), ih h.2]
    rfl

theorem takeWord_separated {rest : Text} (h : Separated rest) : takeWord rest = ([], rest) := by
  cases rest with
  | nil => rfl
  | cons c rest =>
    obtain rfl : c = ' ' := h c rfl
    rw [takeWord, if_neg (by simp [show isNameChar ' ' = false by decide])]

theorem takeWord_steps {steps : List Text} (h : ∀ s ∈ steps, s ≠ [] ∧ ∀ d ∈ s, isNameChar d)
    {rest : Text} (hr : Separated rest) :
    takeWord (steps.flatMap ('.' :: ·) ++ rest) = (steps.flatMap ('.' :: ·), rest) := by
  induction steps with
  | nil => exact takeWord_separated hr
  | cons s steps ih =>
    rw [List.forall_mem_cons] at h
    obtain ⟨⟨hne, hs⟩, hsteps⟩ := h
    obtain ⟨c, s, rfl⟩ := List.exists_cons_of_ne_nil hne
    have hc : isNameChar c := hs c List.mem_cons_self
    rw [List.flatMap_cons, List.cons_append, List.cons_append, List.append_assoc, takeWord,
      if_pos (by simp [hc]), takeWord_of_forall hs, ih hsteps]

/-- The characters that a name starts with begin no other token. -/
theorem isNameStart_ascii {c : Char} (h : isNameStart c) : Text.isBlank c = false ∧
    Text.isDecimalDigit c = false ∧ ∀ d ∈ "()=!<>-.'\"".toList, c ≠ d := by
  have hlt : c.toNat < 128 := by
    show c.val.toNat < 128
    delta isNameStart Char.isAlpha Char.isUpper Char.isLower at h
    simp only [Bool.or_eq_true, Bool.and_eq_true, decide_eq_true_eq, UInt32.le_iff_toNat_le, beq_iff_eq] at h
    rcases h with ((h | h) | rfl) | rfl
    · exact Nat.lt_of_le_of_lt h.2 (by decide)
    · exact Nat.lt_of_le_of_lt h.2 (by decide)
    · decide
    · decide
  revert h
  exact Text.forall_toNat_lt (P := fun c => isNameStart c → Text.isBlank c = false ∧
    Text.isDecimalDigit c = false ∧ ∀ d ∈ "()=!<>-.'\"".toList, c ≠ d) (by decide +kernel) hlt

theorem comparison?_eq_none {c : Char} (h : ∀ d ∈ "=!<>".toList, c ≠ d) (rest : Text) :
    comparison? c rest = none := by
  fun_cases comparison? c rest <;> first | rfl | exact absurd rfl (h _ (by decide))

theorem unsigned?_eq_none {c : Char} (hd : Text.isDecimalDigit c = false) (hp : c ≠ '.')
    (negative : Bool) (rest : Text) : unsigned? negative (c :: rest) = none := by
  have hrun : (c :: rest).takeWhile Text.isDecimalDigit = [] := by simp [hd]
  have hleft : (c :: rest).dropWhile Text.isDecimalDigit = c :: rest := by simp [hd]
  simp only [unsigned?]
  rw [hrun, hleft, takeFraction_of_head (by simpa using hp)]
  rfl

theorem number?_eq_none {c : Char} (hd : Text.isDecimalDigit c = false) (hm : c ≠ '-') (hp : c ≠ '.')
    (rest : Text) : number? (c :: rest) = none := by
  rw [number?]
  · exact unsigned?_eq_none hd hp false rest
  · intro t ht
    exact hm (List.cons.inj ht).1

/-- A word is read to its end. -/
theorem lexeme_word {w rest : Text} (hw : IsWord w) (hr : Separated rest) :
    ∃ c t, w = c :: t ∧ Text.isBlank c = false ∧ lexeme c (t ++ rest) = .ok (.ofWord w, rest) := by
  obtain ⟨c, head, steps, hc, hhead, hsteps, rfl⟩ := hw
  obtain ⟨hblank, hdigit, hne⟩ := isNameStart_ascii hc
  refine ⟨c, _, rfl, hblank, ?_⟩
  have htake : takeWord (head ++ steps.flatMap ('.' :: ·) ++ rest) =
      (head ++ steps.flatMap ('.' :: ·), rest) := by
    rw [List.append_assoc, takeWord_of_forall hhead, takeWord_steps hsteps hr]
  have hquote : ¬ (c = '\'' ∨ c = '"') := by
    rintro (rfl | rfl)
    · exact hne _ (by decide) rfl
    · exact hne _ (by decide) rfl
  rw [lexeme, if_neg (hne _ (by decide)), if_neg (hne _ (by decide)),
    comparison?_eq_none fun d hd => hne d (by revert d; decide), number?_eq_none hdigit
      (hne _ (by decide)) (hne _ (by decide)), if_neg hquote, if_pos hc, htake]

/-- A keyword in capitals is written as it is. -/
theorem spells_of_mem_keywords {w : Text} {t : Token} (h : (w, t) ∈ keywords) : Spells t w := by
  have hall : ∀ p ∈ keywords, keywords.lookup (Text.upper p.1) = some p.2 ∧
      p.1.head?.any isNameStart ∧ p.1.all isNameChar := by
    decide +kernel
  obtain ⟨hlookup, hstart, hchars⟩ := hall _ h
  refine .keyword ?_ hlookup
  cases w with
  | nil => cases hstart
  | cons c w =>
    rw [List.all_cons, Bool.and_eq_true] at hchars
    exact ⟨c, w, [], hstart, List.all_eq_true.1 hchars.2, by simp, by simp⟩

/-! ## Quoted texts -/

/-- **What was escaped is read back.** -/
theorem quoted?_escape {quote : Char} (hq : quote = '\'' ∨ quote = '"') (t rest : Text) :
    quoted? quote (escape quote t ++ quote :: rest) = some (t, rest) := by
  have hslash : '\\' ≠ quote := by
    rcases hq with rfl | rfl
    · decide
    · decide
  have hline : quote ≠ '\n' := by
    rcases hq with rfl | rfl
    · decide
    · decide
  induction t with
  | nil =>
    cases rest with
    | nil => exact if_pos rfl
    | cons d rest => exact if_pos rfl
  | cons c t ih =>
    by_cases hc : c = quote ∨ c = '\\'
    · have hcl : c ≠ '\n' := by
        rcases hc with rfl | rfl
        · exact hline
        · decide
      have he : escape quote (c :: t) = '\\' :: c :: escape quote t := by
        rw [escape, List.flatMap_cons, if_pos hc]
        rfl
      rw [he, List.cons_append, List.cons_append, quoted?, if_neg hslash, if_pos rfl, if_neg hcl, ih]
      rfl
    · have he : escape quote (c :: t) = c :: escape quote t := by
        rw [escape, List.flatMap_cons, if_neg hc]
        rfl
      rw [not_or] at hc
      -- The closing quote comes after the character, at the latest.
      obtain ⟨d, tail, ht⟩ : ∃ d tail, escape quote t ++ quote :: rest = d :: tail :=
        List.exists_cons_of_ne_nil (by simp)
      rw [he, List.cons_append, ht, quoted?, if_neg hc.1, if_neg hc.2, ← ht, ih]
      rfl

/-! ## Whole numbers -/

theorem unsigned?_ofNat {n : Nat} (hn : (Text.ofNat n).length ≤ Numeral.maxDigits) (negative : Bool)
    {rest : Text} (hr : Separated rest) :
    unsigned? negative (Text.ofNat n ++ rest) =
      some (.ok (.whole (if negative then -n else n)), rest) := by
  have hend : ∀ c ∈ rest.head?, Text.isDecimalDigit c = false ∧ Text.isWordChar c = false ∧ c ≠ '.' := by
    intro c hc
    obtain rfl := hr c hc
    decide
  have hvalue : Numeral.ofDigits (digitValues (Text.ofNat n)) = n := Numeral.ofDigits_ofNat n
  rw [unsigned?_digits (Text.ofNat_ne_nil n) (fun _ => Text.isDecimalDigit_of_mem_ofNat) hend]
  simp only [numberOf, List.isEmpty_nil, if_pos, hvalue, hn]

theorem number?_of_head {t : Text} (h : ∀ c ∈ t.head?, c ≠ '-') : number? t = unsigned? false t := by
  unfold number?
  split
  · exact absurd rfl (h '-' rfl)
  · rfl

/-- A whole number is read to its end. -/
theorem lexeme_ofInt {n : Int} (hn : (Text.ofNat n.natAbs).length ≤ Numeral.maxDigits) {rest : Text}
    (hr : Separated rest) : ∃ c t, Text.ofInt n = c :: t ∧ Text.isBlank c = false ∧
      lexeme c (t ++ rest) = .ok (.number (.whole n), rest) := by
  cases n with
  | negSucc n =>
    exact ⟨'-', Text.ofNat (n + 1), rfl, by decide,
      lexeme_of_numeral (.inl rfl) (unsigned?_ofNat hn true hr)⟩
  | ofNat n =>
    obtain ⟨c, t, ht⟩ := List.exists_cons_of_ne_nil (Text.ofNat_ne_nil n)
    have hc : Text.isDecimalDigit c := Text.isDecimalDigit_of_mem_ofNat (ht ▸ List.mem_cons_self)
    have hminus : c ≠ '-' := by
      rintro rfl
      exact absurd hc (by decide)
    have hnumber : number? (c :: (t ++ rest)) = some (.ok (.whole n), rest) := by
      rw [number?_of_head (by simpa using hminus), ← List.cons_append, ← ht]
      exact unsigned?_ofNat hn false hr
    exact ⟨c, t, ht, Text.isBlank_of_isDecimalDigit hc, lexeme_of_numeral (.inr hc) hnumber⟩

/-! ## Tokens -/

theorem Separated.eq_nil_or_cons {rest : Text} (h : Separated rest) :
    rest = [] ∨ ∃ t, rest = ' ' :: t := by
  cases rest with
  | nil => exact .inl rfl
  | cons c t => exact .inr ⟨t, congrArg (· :: t) (h c rfl)⟩

/-- A short sign in front of a space is not the start of a longer one. -/
theorem lexeme_sign {c : Char} (h : c ∈ "=><".toList) {rest : Text} (hr : Separated rest) :
    lexeme c rest = lexeme c [] >>= fun r => .ok (r.1, rest) := by
  simp only [show "=><".toList = ['=', '>', '<'] from rfl, List.mem_cons, List.not_mem_nil, or_false] at h
  obtain rfl | ⟨t, rfl⟩ := hr.eq_nil_or_cons
  · rcases h with rfl | rfl | rfl <;> rfl
  · rcases h with rfl | rfl | rfl <;> rfl

theorem lexeme_string {quote : Char} (hq : quote = '\'' ∨ quote = '"') (t rest : Text) :
    lexeme quote (escape quote t ++ [quote] ++ rest) = .ok (.string t, rest) := by
  have hread : quoted? quote (escape quote t ++ [quote] ++ rest) = some (t, rest) := by
    rw [List.append_assoc]
    exact quoted?_escape hq t rest
  have hdigit : Text.isDecimalDigit quote = false := by
    rcases hq with rfl | rfl <;> decide
  have hne : ∀ d ∈ "()=!<>-.".toList, quote ≠ d := by
    rcases hq with rfl | rfl <;> decide
  rw [lexeme, if_neg (hne _ (by decide)), if_neg (hne _ (by decide)),
    comparison?_eq_none fun d hd => hne d (by revert d; decide), number?_eq_none hdigit
      (hne _ (by decide)) (hne _ (by decide)), if_pos hq, hread]

/-- **A token is read from its spelling.** -/
theorem lexeme_spelled {t : Token} {s rest : Text} (h : Spells t s) (hr : Separated rest) :
    ∃ c u, s = c :: u ∧ Text.isBlank c = false ∧ lexeme c (u ++ rest) = .ok (t, rest) := by
  cases h with
  | openParen => exact ⟨'(', [], rfl, by decide, rfl⟩
  | closeParen => exact ⟨')', [], rfl, by decide, rfl⟩
  | sign op =>
    cases op with
    | equal => exact ⟨'=', ['='], rfl, by decide, rfl⟩
    | unequal => exact ⟨'!', ['='], rfl, by decide, rfl⟩
    | greater => exact ⟨'>', [], rfl, by decide, lexeme_sign (by decide) hr⟩
    | less => exact ⟨'<', [], rfl, by decide, lexeme_sign (by decide) hr⟩
    | greaterOrEqual => exact ⟨'>', ['='], rfl, by decide, rfl⟩
    | lessOrEqual => exact ⟨'<', ['='], rfl, by decide, rfl⟩
  | equalSign => exact ⟨'=', [], rfl, by decide, lexeme_sign (by decide) hr⟩
  | unequalSign => exact ⟨'<', ['>'], rfl, by decide, rfl⟩
  | keyword hw hk =>
    obtain ⟨c, u, rfl, hblank, hlex⟩ := lexeme_word hw hr
    refine ⟨c, u, rfl, hblank, ?_⟩
    rw [hlex, Token.ofWord, hk]
    rfl
  | name hw hk =>
    obtain ⟨c, u, rfl, hblank, hlex⟩ := lexeme_word hw hr
    refine ⟨c, u, rfl, hblank, ?_⟩
    rw [hlex, Token.ofWord, hk]
    rfl
  | whole hn => exact lexeme_ofInt hn hr
  | @string quote t hq =>
    refine ⟨quote, _, rfl, ?_, lexeme_string hq t rest⟩
    rcases hq with rfl | rfl <;> decide

/-! ## Conditions -/

/-- Tokens at the offsets at which they are spelled, with one character between them. -/
def located : Nat → List (Token × Text) → List Located
  | _, [] => []
  | offset, (token, s) :: rest => ⟨token, offset⟩ :: located (offset + s.length + 1) rest

theorem tokensFrom_blank (total : Nat) (t : Text) : tokensFrom total (' ' :: t) = tokensFrom total t := by
  rw [tokensFrom, if_pos (by decide)]

theorem tokensFrom_cons {token : Token} {s rest : Text} (h : Spells token s) (hr : Separated rest)
    (offset : Nat) :
    tokensFrom (offset + (s ++ rest).length) (s ++ rest) =
      (⟨token, offset⟩ :: ·) <$> tokensFrom (offset + (s ++ rest).length) rest := by
  obtain ⟨c, u, rfl, hblank, hlex⟩ := lexeme_spelled h hr
  have hplace : offset + (c :: (u ++ rest)).length - ((u ++ rest).length + 1) = offset :=
    Nat.add_sub_cancel ..
  rw [List.cons_append, tokensFrom, if_neg (by simp [hblank])]
  dsimp only
  rw [hplace]
  split
  · next hl => rw [hlex] at hl; cases hl
  · next hl => rw [hlex] at hl; cases hl
  · next hl =>
    rw [hlex] at hl
    obtain ⟨rfl, rfl⟩ := Prod.mk.inj (Except.ok.inj hl)
    rfl

theorem tokensFrom_spelled {words : List (Token × Text)} (h : ∀ w ∈ words, Spells w.1 w.2)
    (offset : Nat) :
    tokensFrom (offset + (Text.join " " (words.map Prod.snd)).length)
      (Text.join " " (words.map Prod.snd)) = .ok (located offset words) := by
  induction words generalizing offset with
  | nil => rw [List.map_nil, Text.join, tokensFrom]; rfl
  | cons w words ih =>
    obtain ⟨token, s⟩ := w
    rw [List.forall_mem_cons] at h
    obtain ⟨hw, hwords⟩ := h
    cases words with
    | nil =>
      have hone := @tokensFrom_cons token s [] hw (by simp [Separated]) offset
      rw [List.append_nil] at hone
      exact hone.trans (by rw [tokensFrom]; rfl)
    | cons w' words =>
      have ih := ih hwords (offset + s.length + 1)
      have hjoin : Text.join " " (((token, s) :: w' :: words).map Prod.snd) =
          s ++ ' ' :: Text.join " " ((w' :: words).map Prod.snd) := by
        show s ++ [' '] ++ Text.join " " ((w' :: words).map Prod.snd) = _
        rw [List.append_assoc]
        rfl
      rw [hjoin, tokensFrom_cons hw (by simp [Separated]), tokensFrom_blank, List.length_append,
        List.length_cons, show ∀ n, offset + (s.length + (n + 1)) = offset + s.length + 1 + n by omega, ih]
      rfl

/-- **Tokens that are spelled one after the other, with single spaces between them, are read back, each
at the offset of its spelling.** -/
theorem tokenize_spelled (words : List (Token × Text)) (h : ∀ w ∈ words, Spells w.1 w.2) :
    tokenize (Text.join " " (words.map Prod.snd)) =
      .ok ⟨located 0 words, (Text.join " " (words.map Prod.snd)).length⟩ := by
  have := tokensFrom_spelled h 0
  rw [Nat.zero_add] at this
  rw [tokenize, this]
  rfl

/-- A path in a comparison with a negative number, and a text with an apostrophe in it. -/
theorem tokenize_spelled_name : tokenize "( Net.Total > -12 ) AND Name = 'D\\'Arc'" =
    .ok ⟨[⟨.openParen, 0⟩, ⟨.name "Net.Total", 2⟩, ⟨.comparison .greater, 12⟩,
      ⟨.number (.whole (-12)), 14⟩, ⟨.closeParen, 18⟩, ⟨.and, 20⟩, ⟨.name "Name", 24⟩,
      ⟨.comparison .equal, 29⟩, ⟨.string "D'Arc", 31⟩], 39⟩ := by
  have hnet : Spells (.name "Net.Total") "Net.Total" :=
    .name ⟨'N', "et", ["Total"], by decide, by decide, by decide, by decide⟩ (by decide +kernel)
  have hand : Spells .and "AND" := spells_of_mem_keywords (by decide)
  have hname : Spells (.name "Name") "Name" :=
    .name ⟨'N', "ame", [], by decide, by decide, by decide, by decide⟩ (by decide +kernel)
  have hnumber : Spells (.number (.whole (-12))) "-12" := .whole (n := -12) (by decide)
  have hstring : Spells (.string "D'Arc") "'D\\'Arc'" :=
    @Spells.string '\'' "D'Arc" (.inl rfl)
  exact tokenize_spelled [(.openParen, "("), (.name "Net.Total", "Net.Total"), (.comparison .greater, ">"),
    (.number (.whole (-12)), "-12"), (.closeParen, ")"), (.and, "AND"), (.name "Name", "Name"),
    (.comparison .equal, "="), (.string "D'Arc", "'D\\'Arc'")] (by
      simp only [List.forall_mem_cons]
      exact ⟨.openParen, hnet, .sign .greater, hnumber, .closeParen, hand, hname, .equalSign, hstring,
        by simp⟩)

theorem bare_located (offset : Nat) (words : List (Token × Text)) :
    bare (located offset words) = words.map Prod.fst := by
  induction words generalizing offset with
  | nil => rfl
  | cons w words ih => exact congrArg (w.1 :: ·) (ih _)

theorem parse_eq_ok_iff {t : Text} {c : Condition} :
    parse t = .ok c ↔ ∃ ts, tokenize t = .ok ts ∧ ofTokens ts = .ok c := by
  rw [parse]
  cases tokenize t with
  | error f => simp [bind, Except.bind]
  | ok ts =>
    simp only [Except.ok.injEq, exists_eq_left']
    cases h : ofTokens ts <;> simp [h, bind, Except.bind, pure, Except.pure, throw, throwThe,
      MonadExceptOf.throw]

/-- The spelled tokens of a condition are read as that condition. -/
theorem parse_spelled {words : List (Token × Text)} {c : Condition}
    (h : ∀ w ∈ words, Spells w.1 w.2) (hc : Denotes .condition (words.map Prod.fst) c)
    (hdepth : depth (words.map Prod.fst) ≤ levels) :
    parse (Text.join " " (words.map Prod.snd)) = .ok c := by
  rw [← bare_located 0 words] at hc hdepth
  have hne : located 0 words ≠ [] := by
    intro hnil
    rw [hnil] at hc
    exact hc.ne_nil rfl
  have htokens : tokenize (Text.join " " (words.map Prod.snd)) =
      .ok ⟨located 0 words, (Text.join " " (words.map Prod.snd)).length⟩ := by
    have hfrom := tokensFrom_spelled h 0
    rw [Nat.zero_add] at hfrom
    rw [tokenize, hfrom]
    rfl
  exact parse_eq_ok_iff.2 ⟨_, htokens, ofTokens_eq_ok_iff.2 ⟨hne, (readOr_of_denotes hc).2 hdepth⟩⟩

/-! ## Comparisons -/

/-- Two spelled operands with the sign of a comparison between them are read as the comparison. -/
theorem parse_compare {a b : Token} {s t : Text} {l r : Operand} (op : Comparison) (hs : Spells a s)
    (ht : Spells b t) (hl : Operand.ofToken? a = some l) (hr : Operand.ofToken? b = some r) :
    parse (Text.join " " [s, op.sign, t]) = .ok (.compare op l r) := by
  have hwords : ∀ w ∈ [(a, s), (.comparison op, op.sign.toList), (b, t)], Spells w.1 w.2 := by
    simp only [List.forall_mem_cons]
    exact ⟨hs, .sign op, ht, by simp⟩
  have hdepth : depth [a, .comparison op, b] ≤ levels := by
    rw [depth, depthFrom_operand hl, depthFrom, depthFrom_operand hr, depthFrom] <;>
      first | decide | simp
  exact parse_spelled hwords (.alternative (.term (.atom (.compare op hl hr)))) hdepth

/-- A text that is read as a comparison compares the values of its two sides. -/
theorem evaluate_compare {fields : Fields} {t : Text} {op : Comparison} {l r : Operand}
    (h : parse (Text.trim t) = .ok (.compare op l r)) :
    evaluate fields t = (do
      let x ← l.value fields
      let y ← r.value fields
      compareValues op x y : Except Fault Bool).mapError .fault := by
  unfold evaluate
  dsimp only
  rw [h]
  show (holds fields levels (.compare op l r)).mapError _ = _
  rw [holds]
  generalize (do
    let x ← l.value fields
    let y ← r.value fields
    compareValues op x y : Except Fault Bool) = result
  cases result <;> rfl

end MailMerge.Condition
