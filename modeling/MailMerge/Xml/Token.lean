import MailMerge.Xml.Reference

/-!
# Tokens of content

The content of a document is cut into characters, references to entities, and the start and end
tags of elements. Comments and instructions leave no token. `lex` cuts until the element that is
open at the start is closed.

**`length_of_next?`**: a token takes up some of the text.
-/

namespace MailMerge.Xml

/-- A token of content. A tag has its name as it is written. -/
inductive Token where
  | char (c : Char)
  | entity (name : Text)
  | start (name : Text) (attributes : List (Text × List Piece))
  | stop (name : Text)
deriving DecidableEq

/-- The piece as a token. -/
def Piece.token : Piece → Token
  | char c => .char c
  | entity name => .entity name

/-! ## Names -/

/-- A name, perhaps with a namespace in front of a colon. -/
def isQualifiedName (t : Text) : Bool :=
  match Text.splitOn ':' t with
  | [name] => isName name
  | [space, name] => isName space && isName name
  | _ => false

/-- The character may stand in a qualified name. -/
def isQualifiedChar (c : Char) : Bool :=
  isNameChar c || c == ':'

/-- A name and what follows it. -/
def takeName? (t : Text) : Option (Text × Text) :=
  let name := t.takeWhile isQualifiedChar
  if isQualifiedName name then some (name, t.dropWhile isQualifiedChar) else none

/-! ## What leaves no token -/

/-- What follows a comment, after its opening. -/
def comment? (t : Text) : Option Text := do
  let (body, after) ← Text.cutFirst? ['-', '-'] t
  if body.all isLegal then Text.dropStart? ['>'] after else none

/-- The name is reserved for the declaration at the start of a document. -/
def isReserved (target : Text) : Bool :=
  match target with
  | [x, m, l] => (x == 'x' || x == 'X') && (m == 'm' || m == 'M') && (l == 'l' || l == 'L')
  | _ => false

/-- What follows an instruction, after its opening. -/
def instruction? (t : Text) : Option Text := do
  let target := t.takeWhile isNameChar
  let (body, after) ← Text.cutFirst? ['?', '>'] (t.dropWhile isNameChar)
  if isName target && !isReserved target && (body.isEmpty || body.head?.any isSpace)
      && body.all isLegal
  then some after
  else none

/-! ## Tags -/

/-- The end of a start tag: whether it closes the element too, and what follows it. -/
def tagEnd? : Text → Option (Bool × Text)
  | '>' :: t => some (false, t)
  | '/' :: '>' :: t => some (true, t)
  | _ => none

/-- An attribute and what follows it. -/
def attribute? (t : Text) : Option ((Text × List Piece) × Text) := do
  let (name, t) ← takeName? t
  let t ← Text.dropStart? ['='] (skipSpace t)
  match skipSpace t with
  | [] => none
  | quote :: t =>
    if quote = '"' ∨ quote = '\'' then
      let (value, after) ← value? (some quote) t
      return ((name, value), after)
    else
      none

/-- An end tag after its opening, and what follows it. -/
def endTag? (t : Text) : Option (Token × Text) := do
  let (name, t) ← takeName? t
  let after ← Text.dropStart? ['>'] (skipSpace t)
  return (.stop name, after)

/-! ## Lengths -/

theorem length_dropWhile_le (p : Char → Bool) (t : Text) : (t.dropWhile p).length ≤ t.length :=
  (List.dropWhile_sublist p).length_le

theorem length_of_dropStart? {part t after : Text} (h : Text.dropStart? part t = some after) :
    part.length + after.length = t.length := by
  rw [Text.eq_append_of_dropStart? h, List.length_append]

theorem length_of_takeName? {t name after : Text} (h : takeName? t = some (name, after)) :
    after.length ≤ t.length := by
  unfold takeName? at h
  dsimp only at h
  split at h
  · simp only [Option.some.injEq, Prod.mk.injEq] at h
    rw [← h.2]
    exact length_dropWhile_le ..
  · cases h

theorem length_of_comment? {t after : Text} (h : comment? t = some after) :
    after.length < t.length := by
  unfold comment? at h
  simp only [Option.bind_eq_bind, Option.bind_eq_some_iff] at h
  obtain ⟨⟨body, rest⟩, hc, h⟩ := h
  have h₁ := Text.length_of_cutFirst? hc
  split at h
  · have h₂ := length_of_dropStart? h
    simp only [List.length_cons, List.length_nil] at h₁ h₂
    omega
  · cases h

theorem length_of_instruction? {t after : Text} (h : instruction? t = some after) :
    after.length < t.length := by
  unfold instruction? at h
  simp only [Option.bind_eq_bind, Option.bind_eq_some_iff] at h
  obtain ⟨⟨body, rest⟩, hc, h⟩ := h
  have h₁ := Text.length_of_cutFirst? hc
  have h₂ := length_dropWhile_le isNameChar t
  split at h
  · simp only [Option.some.injEq] at h
    rw [← h]
    simp only [List.length_cons, List.length_nil] at h₁
    omega
  · cases h

theorem length_of_tagEnd? {t after : Text} {closed : Bool} (h : tagEnd? t = some (closed, after)) :
    after.length < t.length := by
  unfold tagEnd? at h
  split at h
  · simp only [Option.some.injEq, Prod.mk.injEq] at h
    simp [h.2]
  · simp only [Option.some.injEq, Prod.mk.injEq] at h
    rw [← h.2]
    simp only [List.length_cons]
    omega
  · cases h

theorem length_of_attribute? {t after : Text} {a : Text × List Piece}
    (h : attribute? t = some (a, after)) : after.length < t.length := by
  unfold attribute? at h
  simp only [Option.bind_eq_bind, Option.bind_eq_some_iff] at h
  obtain ⟨⟨name, t₁⟩, h₁, t₂, h₂, h⟩ := h
  have l₁ := length_of_takeName? h₁
  have l₂ := length_of_dropStart? h₂
  have l₃ := length_dropWhile_le isSpace t₁
  have l₄ := length_dropWhile_le isSpace t₂
  split at h
  · cases h
  · next quote t₃ h₃ =>
    split at h
    · obtain ⟨⟨value, rest⟩, h₄, h⟩ := Option.bind_eq_some_iff.1 h
      have l₅ := length_of_value? h₄
      simp only [Option.pure_def, Option.some.injEq, Prod.mk.injEq] at h
      dsimp only at h₂ h₃ h₄ l₂ l₃ l₄ l₅
      unfold skipSpace at h₂ h₃ l₂
      rw [h₃] at l₄
      rw [← h.2]
      simp only [List.length_cons] at l₄
      omega
    · cases h

theorem length_of_endTag? {t after : Text} {token : Token} (h : endTag? t = some (token, after)) :
    after.length < t.length := by
  unfold endTag? at h
  simp only [Option.bind_eq_bind, Option.bind_eq_some_iff, Option.pure_def, Option.some.injEq,
    Prod.mk.injEq] at h
  obtain ⟨⟨name, t₁⟩, h₁, t₂, h₂, -, rfl⟩ := h
  have l₁ := length_of_takeName? h₁
  have l₂ := length_of_dropStart? h₂
  have l₃ := length_dropWhile_le isSpace t₁
  unfold skipSpace at l₂
  simp only [List.length_cons, List.length_nil] at l₂
  omega

/-! ## Start tags -/

/-- The attributes of a start tag, whether the tag closes the element too, and what follows it. -/
def attributes? (t : Text) : Option (List (Text × List Piece) × Bool × Text) :=
  match tagEnd? t with
  | some (closed, after) => some ([], closed, after)
  | none =>
    match t with
    | [] => none
    | c :: rest =>
      if isSpace c then
        match _h : attribute? (skipSpace rest) with
        | some (a, after) =>
          (attributes? after).map fun (more, closed, after) => (a :: more, closed, after)
        | none => (tagEnd? (skipSpace rest)).map fun (closed, after) => ([], closed, after)
      else
        none
  termination_by t.length
  decreasing_by
    have h₁ := length_of_attribute? _h
    have h₂ := length_dropWhile_le isSpace rest
    unfold skipSpace at h₁
    simp only [List.length_cons]
    omega

/-- A start tag after its opening, and what follows it. A tag that closes its element makes an end
tag too. -/
def startTag? (t : Text) : Option (List Token × Text) := do
  let (name, t) ← takeName? t
  let (attributes, closed, after) ← attributes? t
  return (.start name attributes :: if closed then [.stop name] else [], after)

theorem length_of_attributes? {t after : Text} {as : List (Text × List Piece)} {closed : Bool}
    (h : attributes? t = some (as, closed, after)) : after.length < t.length := by
  fun_induction attributes? t generalizing as closed after with
  | case1 t closed' after' ht =>
    simp only [Option.some.injEq, Prod.mk.injEq] at h
    rw [← h.2.2]
    exact length_of_tagEnd? ht
  | case2 => cases h
  | case3 _ rest _ _ _ ha _ ih =>
    obtain ⟨⟨more, c, r⟩, hm, he⟩ := Option.map_eq_some_iff.1 h
    simp only [Prod.mk.injEq] at he
    have h₁ := ih hm
    have h₂ := length_of_attribute? ha
    have h₃ := length_dropWhile_le isSpace rest
    rw [← he.2.2]
    unfold skipSpace at h₂
    simp only [List.length_cons]
    omega
  | case4 c rest _ _ _ =>
    obtain ⟨⟨c', r⟩, hm, he⟩ := Option.map_eq_some_iff.1 h
    simp only [Prod.mk.injEq] at he
    have h₁ := length_of_tagEnd? hm
    have h₂ := length_dropWhile_le isSpace rest
    rw [← he.2.2]
    unfold skipSpace at h₁
    simp only [List.length_cons]
    omega
  | case5 => cases h

theorem length_of_startTag? {t after : Text} {tokens : List Token}
    (h : startTag? t = some (tokens, after)) : after.length < t.length := by
  unfold startTag? at h
  simp only [Option.bind_eq_bind, Option.bind_eq_some_iff, Option.pure_def, Option.some.injEq,
    Prod.mk.injEq] at h
  obtain ⟨⟨name, t₁⟩, h₁, ⟨as, closed, r⟩, h₂, -, rfl⟩ := h
  have := length_of_takeName? h₁
  have := length_of_attributes? h₂
  dsimp only at *
  omega

/-! ## Tokens -/

/-- A section of plain characters after its opening, and what follows it. -/
def characterData? (t : Text) : Option (List Token × Text) := do
  let (body, after) ← Text.cutFirst? [']', ']', '>'] t
  if body.all isLegal then some (body.map .char, after) else none

/-- The tokens that a tag or a comment makes, after the angle bracket, and what follows. -/
def markup? (t : Text) : Option (List Token × Text) :=
  match Text.dropStart? ['!', '-', '-'] t with
  | some t => (comment? t).map fun after => ([], after)
  | none =>
    match Text.dropStart? ['!', '[', 'C', 'D', 'A', 'T', 'A', '['] t with
    | some t => characterData? t
    | none =>
      match t with
      | '?' :: t => (instruction? t).map fun after => ([], after)
      | '/' :: t => (endTag? t).map fun (token, after) => ([token], after)
      | t => startTag? t

/-- The tokens at the start of a text, and what follows them. -/
def next? : Text → Option (List Token × Text)
  | [] => none
  | '<' :: t => markup? t
  | '&' :: t => (reference? t).map fun (piece, after) => ([piece.token], after)
  | ']' :: ']' :: '>' :: _ => none
  | c :: t => if isLegal c then some ([.char c], t) else none

theorem length_of_characterData? {t after : Text} {tokens : List Token}
    (h : characterData? t = some (tokens, after)) : after.length < t.length := by
  unfold characterData? at h
  simp only [Option.bind_eq_bind, Option.bind_eq_some_iff] at h
  obtain ⟨⟨body, rest⟩, hc, h⟩ := h
  have h₁ := Text.length_of_cutFirst? hc
  split at h
  · simp only [Option.some.injEq, Prod.mk.injEq] at h
    rw [← h.2]
    simp only [List.length_cons, List.length_nil] at h₁
    omega
  · cases h

theorem length_of_markup? {t after : Text} {tokens : List Token}
    (h : markup? t = some (tokens, after)) : after.length < t.length := by
  unfold markup? at h
  split at h
  · next t' hd =>
    obtain ⟨r, hc, he⟩ := Option.map_eq_some_iff.1 h
    simp only [Prod.mk.injEq] at he
    have h₁ := length_of_dropStart? hd
    have h₂ := length_of_comment? hc
    rw [← he.2]
    omega
  · split at h
    · next t' hd =>
      have h₁ := length_of_dropStart? hd
      have h₂ := length_of_characterData? h
      omega
    · split at h
      · obtain ⟨r, hc, he⟩ := Option.map_eq_some_iff.1 h
        simp only [Prod.mk.injEq] at he
        have := length_of_instruction? hc
        rw [← he.2]
        simp only [List.length_cons]
        omega
      · obtain ⟨⟨token, r⟩, hc, he⟩ := Option.map_eq_some_iff.1 h
        simp only [Prod.mk.injEq] at he
        have := length_of_endTag? hc
        rw [← he.2]
        simp only [List.length_cons]
        omega
      · exact length_of_startTag? h

theorem length_of_next? {t after : Text} {tokens : List Token}
    (h : next? t = some (tokens, after)) : after.length < t.length := by
  unfold next? at h
  split at h
  · cases h
  · have := length_of_markup? h
    simp only [List.length_cons]
    omega
  · obtain ⟨⟨piece, r⟩, hc, he⟩ := Option.map_eq_some_iff.1 h
    simp only [Prod.mk.injEq] at he
    have := length_of_reference? hc
    rw [← he.2]
    simp only [List.length_cons]
    omega
  · cases h
  · split at h
    · simp only [Option.some.injEq, Prod.mk.injEq] at h
      simp [← h.2]
    · cases h

/-! ## Content -/

/-- How many elements are open after tokens, if no more are closed than were open. -/
def depthAfter (depth : Nat) : List Token → Option Nat
  | [] => some depth
  | .start .. :: tokens => depthAfter (depth + 1) tokens
  | .stop _ :: tokens => if depth = 0 then none else depthAfter (depth - 1) tokens
  | _ :: tokens => depthAfter depth tokens

/-- Tokens with what follows them. -/
structure Lexed where
  tokens : List Token
  /-- So many elements are open at the end. -/
  depth : Nat
  rest : Text

/-- The tokens of a text in which so many elements are open, up to where none is. -/
def lex (depth : Nat) (t : Text) : Option Lexed :=
  if t = [] then some ⟨[], depth, []⟩
  else
    match _h : next? t with
    | none => none
    | some (tokens, after) =>
      match depthAfter depth tokens with
      | none => none
      | some 0 => some ⟨tokens, 0, after⟩
      | some depth =>
        (lex depth after).map fun more => { more with tokens := tokens ++ more.tokens }
  termination_by t.length
  decreasing_by exact length_of_next? _h

end MailMerge.Xml
