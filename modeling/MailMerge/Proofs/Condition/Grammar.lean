import MailMerge.Condition.Reading

/-!
# The grammar of conditions

What is a condition, said without saying how it is read: `Denotes` relates the tokens of a phrase
to the condition that they stand for, one constructor for each production.

    condition   := alternative (OR alternative)*
    alternative := term (AND term)*
    term        := NOT term | atom
    atom        := '(' condition ')' | ISBLANK field | ISBLANK '(' field ')'
                 | operand [comparison operand | text test operand]

A repetition groups to the left, so its production has the longer phrase on the left.

**`sound_readPhrase`**: what a reader takes from the front of the tokens is a phrase of its
kind, and what it makes of it is what the phrase denotes.
-/

namespace MailMerge.Condition

/-- The kinds of phrases, from the loosest to the tightest. -/
inductive Phrase where
  | condition
  | alternative
  | term
  | atom

/-- The tokens are a phrase of the kind, and the condition is what it stands for. -/
inductive Denotes : Phrase → List Token → Condition → Prop
  | alternative {ts c} : Denotes .alternative ts c → Denotes .condition ts c
  | or {ts us c d} : Denotes .condition ts c → Denotes .alternative us d →
      Denotes .condition (ts ++ .or :: us) (.or c d)
  | term {ts c} : Denotes .term ts c → Denotes .alternative ts c
  | and {ts us c d} : Denotes .alternative ts c → Denotes .term us d →
      Denotes .alternative (ts ++ .and :: us) (.and c d)
  | atom {ts c} : Denotes .atom ts c → Denotes .term ts c
  | not {ts c} : Denotes .term ts c → Denotes .term (.not :: ts) (.not c)
  | parens {ts c} : Denotes .condition ts c → Denotes .atom (.openParen :: ts ++ [.closeParen]) c
  | isBlank (path) : Denotes .atom [.isBlank, .name path] (.isBlank path)
  | isBlankParens (path) :
      Denotes .atom [.isBlank, .openParen, .name path, .closeParen] (.isBlank path)
  | operand {t a} : Operand.ofToken? t = some a → Denotes .atom [t] (ofOperand a)
  | compare {t u a b} (op) : Operand.ofToken? t = some a → Operand.ofToken? u = some b →
      Denotes .atom [t, .comparison op, u] (.compare op a b)
  | test {t u a b} (op) : Operand.ofToken? t = some a → Operand.ofToken? u = some b →
      Denotes .atom [t, .textTest op, u] (.test op a b)

/-- A phrase has a token. -/
theorem Denotes.ne_nil {p : Phrase} {ts : List Token} {c : Condition} (h : Denotes p ts c) :
    ts ≠ [] := by
  induction h <;> simp_all

/-- The tokens without their places. -/
def bare (ts : List Located) : List Token :=
  ts.map (·.token)

@[simp] theorem bare_nil : bare [] = [] := rfl

@[simp] theorem bare_cons (t : Located) (ts : List Located) : bare (t :: ts) = t.token :: bare ts :=
  rfl

@[simp] theorem bare_append (ts us : List Located) : bare (ts ++ us) = bare ts ++ bare us :=
  List.map_append

/-- The reader of phrases of a kind. -/
def readPhrase : Phrase → (levels : Nat) → List Located → Except ReadFailure (Read Condition)
  | .condition => readOr
  | .alternative => readAnd
  | .term => readNot
  | .atom => readAtom

/-! ## Equations of the readers -/

theorem readPhrase_zero (p : Phrase) (ts : List Located) :
    readPhrase p 0 ts = .error ⟨.tooDeep, ts⟩ := by
  cases p <;> simp [readPhrase, readOr, readAnd, readNot, readAtom]

theorem readPhrase_condition (n : Nat) (ts : List Located) :
    readPhrase .condition (n + 1) ts = readPhrase .alternative n ts >>= fun r =>
      readChain .or .or (readPhrase .alternative n) r.2.length r.1 r.2 := by
  simp [readPhrase, readOr]

theorem readPhrase_alternative (n : Nat) (ts : List Located) :
    readPhrase .alternative (n + 1) ts = readPhrase .term n ts >>= fun r =>
      readChain .and .and (readPhrase .term n) r.2.length r.1 r.2 := by
  simp [readPhrase, readAnd]

theorem readPhrase_not (n place : Nat) (ts : List Located) :
    readPhrase .term (n + 1) (⟨.not, place⟩ :: ts) =
      readPhrase .term n ts >>= fun r => .ok (.not r.1, r.2) := by
  simp [readPhrase, readNot, pure, Except.pure]

theorem readPhrase_term {ts : List Located} (n : Nat)
    (h : ¬ ∃ place us, ts = ⟨.not, place⟩ :: us) :
    readPhrase .term (n + 1) ts = readPhrase .atom n ts := by
  simp only [not_exists] at h
  exact readNot.eq_3 ts n h

theorem readPhrase_openParen (n place : Nat) (ts : List Located) :
    readPhrase .atom (n + 1) (⟨.openParen, place⟩ :: ts) =
      readPhrase .condition n ts >>= fun r =>
        readToken .closeParen .closeParen r.2 >>= fun s => .ok (r.1, s.2) := by
  simp [readPhrase, readAtom, pure, Except.pure]

theorem readPhrase_isBlank (n place : Nat) (ts : List Located) :
    readPhrase .atom (n + 1) (⟨.isBlank, place⟩ :: ts) = readBlank ts := by
  simp [readPhrase, readAtom]

theorem readPhrase_atom {ts : List Located} (n : Nat)
    (h₁ : ¬ ∃ place us, ts = ⟨.openParen, place⟩ :: us)
    (h₂ : ¬ ∃ place us, ts = ⟨.isBlank, place⟩ :: us) :
    readPhrase .atom (n + 1) ts = readComparison ts := by
  simp only [not_exists] at h₁ h₂
  exact readAtom.eq_4 ts n h₁ h₂

/-! ## Readers without levels -/

/-- Two steps give a part just if the first gives one and the second goes on from it. -/
theorem bind_eq_ok_iff {α β : Type} {x : Except ReadFailure α} {f : α → Except ReadFailure β}
    {b : β} : (x >>= f) = .ok b ↔ ∃ a, x = .ok a ∧ f a = .ok b := by
  cases x with
  | error e => simp [bind, Except.bind]
  | ok a => simp [bind, Except.bind]

theorem readToken_eq_ok_iff {token : Token} {what : Expected} {ts rest : List Located} :
    readToken token what ts = .ok ((), rest) ↔ ∃ place, ts = ⟨token, place⟩ :: rest := by
  cases ts with
  | nil => simp [readToken, failExpected]
  | cons t ts =>
    obtain ⟨found, position⟩ := t
    by_cases h : found = token
    · simp [readToken, h, eq_comm]
    · simp [readToken, failExpected, h]

theorem readName_eq_ok_iff {ts rest : List Located} {path : Text} :
    readName ts = .ok (path, rest) ↔ ∃ place, ts = ⟨.name path, place⟩ :: rest := by
  fun_cases readName ts with
  | case1 found position ts => simp
  | case2 _ no_name =>
    constructor
    · intro h
      simp [failExpected] at h
    · intro ⟨place, h⟩
      exact absurd h (no_name path place rest)

theorem readOperand_eq_ok_iff {ts rest : List Located} {a : Operand} :
    readOperand ts = .ok (a, rest) ↔
      ∃ t place, ts = ⟨t, place⟩ :: rest ∧ Operand.ofToken? t = some a := by
  cases ts with
  | nil => simp [readOperand, failExpected]
  | cons t ts =>
    obtain ⟨found, position⟩ := t
    cases h : Operand.ofToken? found with
    | none =>
      simp only [readOperand, h, failExpected, reduceCtorEq, false_iff]
      intro ⟨t, place, hts, ht⟩
      obtain ⟨⟨rfl, -⟩, -⟩ := by simpa using hts
      simp [h] at ht
    | some b =>
      simp only [readOperand, h, Except.ok.injEq, Prod.mk.injEq]
      constructor
      · intro ⟨hb, hrest⟩
        exact ⟨found, position, by rw [hrest], by rw [h, hb]⟩
      · intro ⟨t, place, hts, ht⟩
        obtain ⟨⟨rfl, -⟩, hrest⟩ := by simpa using hts
        exact ⟨Option.some.inj (h.symm.trans ht), hrest⟩

/-- A reading is sound for a kind of phrase: it takes a phrase of the kind and gives what that
denotes. -/
def Sound (denotes : List Token → Condition → Prop)
    (read : List Located → Except ReadFailure (Read Condition)) : Prop :=
  ∀ ts c rest, read ts = .ok (c, rest) → ∃ us, ts = us ++ rest ∧ denotes (bare us) c

theorem sound_readBlank {place : Nat} {ts rest : List Located} {c : Condition}
    (h : readBlank ts = .ok (c, rest)) :
    ∃ us, ts = us ++ rest ∧ Denotes .atom (bare (⟨.isBlank, place⟩ :: us)) c := by
  revert h
  fun_cases readBlank ts with
  | case1 openPlace ts =>
    intro h
    obtain ⟨⟨path, ts'⟩, hname, hrest⟩ := bind_eq_ok_iff.1 h
    obtain ⟨⟨⟨⟩, ts''⟩, hclose, hdone⟩ := bind_eq_ok_iff.1 hrest
    obtain ⟨namePlace, rfl⟩ := readName_eq_ok_iff.1 hname
    obtain ⟨closePlace, rfl⟩ := readToken_eq_ok_iff.1 hclose
    obtain ⟨rfl, rfl⟩ := by simpa [pure, Except.pure] using hdone
    exact ⟨[⟨.openParen, openPlace⟩, ⟨.name path, namePlace⟩, ⟨.closeParen, closePlace⟩], rfl,
      .isBlankParens path⟩
  | case2 _ _ =>
    intro h
    obtain ⟨⟨path, ts'⟩, hname, hdone⟩ := bind_eq_ok_iff.1 h
    obtain ⟨namePlace, rfl⟩ := readName_eq_ok_iff.1 hname
    obtain ⟨rfl, rfl⟩ := by simpa [pure, Except.pure] using hdone
    exact ⟨[⟨.name path, namePlace⟩], rfl, .isBlank path⟩

theorem sound_readComparison : Sound (Denotes .atom) readComparison := by
  intro ts c rest h
  obtain ⟨⟨a, ts'⟩, hleft, hmore⟩ := bind_eq_ok_iff.1 h
  obtain ⟨t, place, rfl, ha⟩ := readOperand_eq_ok_iff.1 hleft
  dsimp only at hmore
  split at hmore
  case h_1 op opPlace ts' =>
    obtain ⟨⟨b, ts''⟩, hright, hdone⟩ := bind_eq_ok_iff.1 hmore
    obtain ⟨u, uPlace, rfl, hb⟩ := readOperand_eq_ok_iff.1 hright
    obtain ⟨rfl, rfl⟩ := by simpa [pure, Except.pure] using hdone
    exact ⟨[⟨t, place⟩, ⟨.comparison op, opPlace⟩, ⟨u, uPlace⟩], rfl, .compare op ha hb⟩
  case h_2 op opPlace ts' =>
    obtain ⟨⟨b, ts''⟩, hright, hdone⟩ := bind_eq_ok_iff.1 hmore
    obtain ⟨u, uPlace, rfl, hb⟩ := readOperand_eq_ok_iff.1 hright
    obtain ⟨rfl, rfl⟩ := by simpa [pure, Except.pure] using hdone
    exact ⟨[⟨t, place⟩, ⟨.textTest op, opPlace⟩, ⟨u, uPlace⟩], rfl, .test op ha hb⟩
  case h_3 =>
    obtain ⟨rfl, rfl⟩ := by simpa [pure, Except.pure] using hmore
    exact ⟨[⟨t, place⟩], rfl, .operand ha⟩

/-- A chain of sound parts is sound, going on from a first part that is read already. -/
theorem sound_readChain {joint : Token} {join : Condition → Condition → Condition}
    {part : List Located → Except ReadFailure (Read Condition)}
    {chained single : List Token → Condition → Prop}
    (grow : ∀ {ts us c d}, chained ts c → single us d → chained (ts ++ joint :: us) (join c d))
    (sound : Sound single part) {most : Nat} {left c : Condition} {done ts rest : List Located}
    (start : chained (bare done) left) (h : readChain joint join part most left ts = .ok (c, rest)) :
    ∃ us, ts = us ++ rest ∧ chained (bare (done ++ us)) c := by
  induction most generalizing left done ts with
  | zero =>
    obtain ⟨rfl, rfl⟩ := by simpa [readChain] using h
    exact ⟨[], rfl, by simpa using start⟩
  | succ most ih =>
    cases ts with
    | nil =>
      obtain ⟨rfl, rfl⟩ := by simpa [readChain] using h
      exact ⟨[], rfl, by simpa using start⟩
    | cons t ts =>
      by_cases ht : t.token = joint
      · rw [readChain, if_pos ht] at h
        obtain ⟨⟨right, ts'⟩, hpart, hmore⟩ := bind_eq_ok_iff.1 h
        obtain ⟨us, rfl, hus⟩ := sound _ _ _ hpart
        have grown : chained (bare (done ++ t :: us)) (join left right) := by
          simpa [ht] using grow start hus
        obtain ⟨vs, rfl, hvs⟩ := ih grown hmore
        exact ⟨t :: us ++ vs, by simp, by simpa using hvs⟩
      · obtain ⟨rfl, rfl⟩ := by simpa [readChain, ht] using h
        exact ⟨[], rfl, by simpa using start⟩

/-- What the reader of a kind of phrase takes is a phrase of the kind. The induction is on the
levels, which every reader hands on one less of. -/
theorem sound_readPhrase (p : Phrase) (n : Nat) : Sound (Denotes p) (readPhrase p n) := by
  induction n generalizing p with
  | zero =>
    intro ts c rest h
    simp [readPhrase_zero] at h
  | succ n ih =>
    intro ts c rest h
    cases p with
    | condition =>
      rw [readPhrase_condition] at h
      obtain ⟨⟨left, ts'⟩, hleft, hmore⟩ := bind_eq_ok_iff.1 h
      obtain ⟨us, rfl, hus⟩ := ih .alternative _ _ _ hleft
      obtain ⟨vs, rfl, hvs⟩ := sound_readChain Denotes.or (ih .alternative) hus.alternative hmore
      exact ⟨us ++ vs, by simp, hvs⟩
    | alternative =>
      rw [readPhrase_alternative] at h
      obtain ⟨⟨left, ts'⟩, hleft, hmore⟩ := bind_eq_ok_iff.1 h
      obtain ⟨us, rfl, hus⟩ := ih .term _ _ _ hleft
      obtain ⟨vs, rfl, hvs⟩ := sound_readChain Denotes.and (ih .term) hus.term hmore
      exact ⟨us ++ vs, by simp, hvs⟩
    | term =>
      by_cases hnot : ∃ place us, ts = ⟨.not, place⟩ :: us
      · obtain ⟨place, ts, rfl⟩ := hnot
        rw [readPhrase_not] at h
        obtain ⟨⟨d, ts'⟩, hterm, hdone⟩ := bind_eq_ok_iff.1 h
        obtain ⟨us, rfl, hus⟩ := ih .term _ _ _ hterm
        obtain ⟨rfl, rfl⟩ := by simpa using hdone
        exact ⟨⟨.not, place⟩ :: us, rfl, .not hus⟩
      · rw [readPhrase_term n hnot] at h
        obtain ⟨us, rfl, hus⟩ := ih .atom _ _ _ h
        exact ⟨us, rfl, .atom hus⟩
    | atom =>
      by_cases hopen : ∃ place us, ts = ⟨.openParen, place⟩ :: us
      · obtain ⟨place, ts, rfl⟩ := hopen
        rw [readPhrase_openParen] at h
        obtain ⟨⟨d, ts'⟩, hcondition, hmore⟩ := bind_eq_ok_iff.1 h
        obtain ⟨⟨⟨⟩, ts''⟩, hclose, hdone⟩ := bind_eq_ok_iff.1 hmore
        obtain ⟨us, rfl, hus⟩ := ih .condition _ _ _ hcondition
        obtain ⟨closePlace, rfl⟩ := readToken_eq_ok_iff.1 hclose
        obtain ⟨rfl, rfl⟩ := by simpa using hdone
        exact ⟨⟨.openParen, place⟩ :: us ++ [⟨.closeParen, closePlace⟩], by simp,
          by simpa using Denotes.parens hus⟩
      · by_cases hblank : ∃ place us, ts = ⟨.isBlank, place⟩ :: us
        · obtain ⟨place, ts, rfl⟩ := hblank
          rw [readPhrase_isBlank] at h
          obtain ⟨us, rfl, hus⟩ := sound_readBlank h
          exact ⟨⟨.isBlank, place⟩ :: us, rfl, hus⟩
        · rw [readPhrase_atom n hopen hblank] at h
          exact sound_readComparison _ _ _ h

end MailMerge.Condition
