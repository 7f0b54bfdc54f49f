import MailMerge.Xml.Token

/-!
# Declarations

A document may begin with a document type, whose declarations are cut into marks: names, quoted
literals and signs. What may follow a mark without a space is limited.
-/

namespace MailMerge.Xml

/-- A mark of a declaration. -/
inductive Mark where
  /-- A name, perhaps with a sign of repetition. -/
  | name (t : Text) (sign : Option Char)
  /-- Name characters that are no name. -/
  | word (t : Text)
  /-- A name after a number sign. -/
  | keyword (t : Text)
  | literal (t : Text)
  | openParen
  | closeParen (sign : Option Char)
  | bar
  | comma
  | percent
deriving DecidableEq

/-- The text goes on with one of the characters or a space. -/
def goesOn (signs t : Text) : Bool :=
  t.head?.any fun c => isSpace c || decide (c ∈ signs)

/-- The name characters may be a name: with one colon at most, which is not the last of them. -/
def looksLikeName (t : Text) : Bool :=
  t.head?.any isNameStart && t.count ':' ≤ 1 && t.getLast? != some ':'

/-- A sign of repetition and what follows it. -/
def takeSign : Text → Option Char × Text
  | c :: t => if c = '?' ∨ c = '*' ∨ c = '+' then (some c, t) else (none, c :: t)
  | [] => (none, [])

/-- A name or a word, and what follows it. -/
def takeWord? (t : Text) : Option (Mark × Text) :=
  let word := t.takeWhile isQualifiedChar
  let (sign, after) := takeSign (t.dropWhile isQualifiedChar)
  if word.isEmpty then none
  else if looksLikeName word then
    if sign.isSome || goesOn [')', '>', ',', '|', '[', '%'] after then some (.name word sign, after)
    else none
  else if sign.isNone && goesOn [')', '>', ',', '|', '[', '%'] after then some (.word word, after)
  else none

/-- A literal after its opening quote, and what follows it. -/
def takeLiteral? (quote : Char) (t : Text) : Option (Mark × Text) := do
  let (body, after) ← Text.cutFirst? [quote] t
  if body.all isLegal && goesOn ['>', '%', '['] after then some (.literal body, after) else none

/-- A closing parenthesis after its sign, and what follows it. -/
def takeClosing? (t : Text) : Option (Mark × Text) :=
  let (sign, after) := takeSign t
  if sign.isSome || goesOn ['>', ',', '|', ')'] after then some (.closeParen sign, after) else none

/-- A keyword after its number sign, and what follows it. -/
def takeKeyword? (t : Text) : Option (Mark × Text) :=
  let word := t.takeWhile isNameChar
  let after := t.dropWhile isNameChar
  if isName word && goesOn [')', '>', '%', '|'] after then some (.keyword word, after) else none

/-- A mark and what follows it. -/
def mark? : Text → Option (Mark × Text)
  | '"' :: t => takeLiteral? '"' t
  | '\'' :: t => takeLiteral? '\'' t
  | '(' :: t => some (.openParen, t)
  | ')' :: t => takeClosing? t
  | '|' :: t => some (.bar, t)
  | ',' :: t => some (.comma, t)
  | '%' :: t => if goesOn ['%'] t then some (.percent, t) else none
  | '#' :: t => takeKeyword? t
  | t => takeWord? t

/-! ## Lengths -/

theorem length_of_takeSign (t : Text) : (takeSign t).2.length ≤ t.length := by
  unfold takeSign
  split
  · split
    · simp
    · simp
  · simp

theorem length_of_takeWord? {t after : Text} {m : Mark} (h : takeWord? t = some (m, after)) :
    after.length < t.length := by
  unfold takeWord? at h
  have hs := length_of_takeSign (t.dropWhile isQualifiedChar)
  have ht : (t.takeWhile isQualifiedChar).length + (t.dropWhile isQualifiedChar).length
      = t.length := by
    rw [← List.length_append, List.takeWhile_append_dropWhile]
  revert h hs
  rcases takeSign (t.dropWhile isQualifiedChar) with ⟨sign, rest⟩
  intro h hs
  dsimp only at h hs
  split at h
  · cases h
  · next hw =>
    have hpos : 0 < (t.takeWhile isQualifiedChar).length := by
      rw [List.length_pos_iff]
      intro he
      exact hw (by simp [he])
    split at h <;> split at h <;>
      first
        | cases h; done
        | (simp only [Option.some.injEq, Prod.mk.injEq] at h
           rw [← h.2]
           omega)

theorem length_of_takeLiteral? {quote : Char} {t after : Text} {m : Mark}
    (h : takeLiteral? quote t = some (m, after)) : after.length < t.length := by
  unfold takeLiteral? at h
  simp only [Option.bind_eq_bind, Option.bind_eq_some_iff] at h
  obtain ⟨⟨body, rest⟩, hc, h⟩ := h
  have := Text.length_of_cutFirst? hc
  split at h
  · simp only [Option.some.injEq, Prod.mk.injEq] at h
    rw [← h.2]
    simp only [List.length_cons, List.length_nil] at this
    omega
  · cases h

theorem length_of_takeClosing? {t after : Text} {m : Mark}
    (h : takeClosing? t = some (m, after)) : after.length ≤ t.length := by
  unfold takeClosing? at h
  have hs := length_of_takeSign t
  revert h hs
  rcases takeSign t with ⟨sign, rest⟩
  intro h hs
  dsimp only at h hs
  split at h
  · simp only [Option.some.injEq, Prod.mk.injEq] at h
    rw [← h.2]
    exact hs
  · cases h

theorem length_of_takeKeyword? {t after : Text} {m : Mark}
    (h : takeKeyword? t = some (m, after)) : after.length ≤ t.length := by
  unfold takeKeyword? at h
  dsimp only at h
  split at h
  · simp only [Option.some.injEq, Prod.mk.injEq] at h
    rw [← h.2]
    exact length_dropWhile_le ..
  · cases h

theorem length_of_mark? {t after : Text} {m : Mark} (h : mark? t = some (m, after)) :
    after.length < t.length := by
  unfold mark? at h
  split at h
  · have := length_of_takeLiteral? h
    simp only [List.length_cons]
    omega
  · have := length_of_takeLiteral? h
    simp only [List.length_cons]
    omega
  · simp only [Option.some.injEq, Prod.mk.injEq] at h
    simp [← h.2]
  · have := length_of_takeClosing? h
    simp only [List.length_cons]
    omega
  · simp only [Option.some.injEq, Prod.mk.injEq] at h
    simp [← h.2]
  · simp only [Option.some.injEq, Prod.mk.injEq] at h
    simp [← h.2]
  · split at h
    · simp only [Option.some.injEq, Prod.mk.injEq] at h
      simp [← h.2]
    · cases h
  · have := length_of_takeKeyword? h
    simp only [List.length_cons]
    omega
  · exact length_of_takeWord? h

/-! ## Marks of a declaration -/

/-- The marks up to a closing angle bracket or an opening square bracket; which of the two, and what
follows it. -/
def marks? (t : Text) : Option (List Mark × Char × Text) :=
  match t with
  | [] => none
  | c :: rest =>
    if isSpace c then marks? rest
    else if c = '>' ∨ c = '[' then some ([], c, rest)
    else
      match _h : mark? (c :: rest) with
      | none => none
      | some (m, after) => (marks? after).map fun (ms, more) => (m :: ms, more)
  termination_by t.length
  decreasing_by
    · simp
    · exact length_of_mark? _h

theorem length_of_marks? {t after : Text} {ms : List Mark} {c : Char}
    (h : marks? t = some (ms, c, after)) : after.length < t.length := by
  fun_induction marks? t generalizing ms c after with
  | case1 => cases h
  | case2 _ _ _ ih =>
    have := ih h
    simp only [List.length_cons]
    omega
  | case3 =>
    simp only [Option.some.injEq, Prod.mk.injEq] at h
    simp [← h.2.2]
  | case4 => cases h
  | case5 _ _ _ _ _ _ hm ih =>
    obtain ⟨⟨ns, more⟩, hr, he⟩ := Option.map_eq_some_iff.1 h
    simp only [Prod.mk.injEq] at he
    have h₁ := length_of_mark? hm
    rw [he.2] at hr
    have h₂ := ih hr
    omega

end MailMerge.Xml
