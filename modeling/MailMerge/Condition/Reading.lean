import MailMerge.Condition.Basic
import MailMerge.Condition.Lexer

/-!
# Reading a condition

A condition is alternatives joined by `OR`; an alternative is terms joined by `AND`; a term is
a negation or an atom; an atom is a condition in parentheses, a test for blank, a comparison, a
text test or an operand alone. `OR` and `AND` group to the left.

How deeply parentheses and negations may nest is limited: each function that reads a part is given
a number of levels and hands on one less.
-/

namespace MailMerge.Condition

/-- The levels of reading that a condition may take; a pair of parentheses takes four of them, a
negation one. -/
def levels : Nat := 960

/-- Why reading failed, with the tokens that were left. -/
structure ReadFailure where
  cause : Cause
  rest : List Located

/-- A part of a condition, and the tokens after it. -/
abbrev Read (α : Type) := α × List Located

/-- The failure that something else than the next token should have stood there. -/
def failExpected {α : Type} (what : Expected) (ts : List Located) : Except ReadFailure (Read α) :=
  .error ⟨.expected what (ts.head?.map (·.token)), ts⟩

/-- A given token. -/
def readToken (token : Token) (what : Expected) : List Located → Except ReadFailure (Read Unit)
  | [] => failExpected what []
  | t :: ts => if t.token = token then .ok ((), ts) else failExpected what (t :: ts)

/-- A field name. -/
def readName : List Located → Except ReadFailure (Read Text)
  | ⟨.name path, _⟩ :: ts => .ok (path, ts)
  | ts => failExpected .fieldName ts

/-- An operand. -/
def readOperand : List Located → Except ReadFailure (Read Operand)
  | [] => failExpected .operand []
  | t :: ts =>
    match Operand.ofToken? t.token with
    | some operand => .ok (operand, ts)
    | none => failExpected .operand (t :: ts)

/-- What is blank, after `ISBLANK`: a field name, in parentheses or not. -/
def readBlank : List Located → Except ReadFailure (Read Condition)
  | ⟨.openParen, _⟩ :: ts => do
    let (path, ts) ← readName ts
    let ((), ts) ← readToken .closeParen .closeParen ts
    return (.isBlank path, ts)
  | ts => do
    let (path, ts) ← readName ts
    return (.isBlank path, ts)

/-- An operand alone, or two with a comparison or a text test between them. -/
def readComparison (ts : List Located) : Except ReadFailure (Read Condition) := do
  let (left, ts) ← readOperand ts
  match ts with
  | ⟨.comparison op, _⟩ :: ts =>
    let (right, ts) ← readOperand ts
    return (.compare op left right, ts)
  | ⟨.textTest op, _⟩ :: ts =>
    let (right, ts) ← readOperand ts
    return (.test op left right, ts)
  | ts => return (ofOperand left, ts)

/-- The parts that follow a first one, each after a joining token, grouped to the left. There are
at most as many as the given number. -/
def readChain (joint : Token) (join : Condition → Condition → Condition)
    (part : List Located → Except ReadFailure (Read Condition)) :
    (most : Nat) → Condition → List Located → Except ReadFailure (Read Condition)
  | most + 1, left, t :: ts =>
    if t.token = joint then do
      let (right, ts) ← part ts
      readChain joint join part most (join left right) ts
    else
      .ok (left, t :: ts)
  | _, left, ts => .ok (left, ts)

mutual

/-- Alternatives joined by `OR`. -/
def readOr : (levels : Nat) → List Located → Except ReadFailure (Read Condition)
  | 0, ts => .error ⟨.tooDeep, ts⟩
  | n + 1, ts => do
    let (left, ts) ← readAnd n ts
    readChain .or .or (readAnd n) ts.length left ts

/-- Terms joined by `AND`. -/
def readAnd : (levels : Nat) → List Located → Except ReadFailure (Read Condition)
  | 0, ts => .error ⟨.tooDeep, ts⟩
  | n + 1, ts => do
    let (left, ts) ← readNot n ts
    readChain .and .and (readNot n) ts.length left ts

/-- A term: any number of negations before an atom. -/
def readNot : (levels : Nat) → List Located → Except ReadFailure (Read Condition)
  | 0, ts => .error ⟨.tooDeep, ts⟩
  | n + 1, ⟨.not, _⟩ :: ts => do
    let (operand, ts) ← readNot n ts
    return (.not operand, ts)
  | n + 1, ts => readAtom n ts

/-- A condition in parentheses, a test for blank, or a comparison. -/
def readAtom : (levels : Nat) → List Located → Except ReadFailure (Read Condition)
  | 0, ts => .error ⟨.tooDeep, ts⟩
  | n + 1, ⟨.openParen, _⟩ :: ts => do
    let (condition, ts) ← readOr n ts
    let ((), ts) ← readToken .closeParen .closeParen ts
    return (condition, ts)
  | _ + 1, ⟨.isBlank, _⟩ :: ts => readBlank ts
  | _ + 1, ts => readComparison ts

end

/-- The place of the next token, or of the end. -/
def positionOf (stop : Nat) : List Located → Nat
  | [] => stop
  | t :: _ => t.position

/-- The problem that a failure shows. Nesting too deep has no place. -/
def ReadFailure.problem (stop : Nat) (f : ReadFailure) : Problem where
  cause := f.cause
  position := if f.cause = .tooDeep then none else some (positionOf stop f.rest)

/-- The condition that tokens stand for, all of them used. -/
def ofTokens (ts : Tokens) : Except Problem Condition :=
  match ts.tokens with
  | [] => .error { cause := .empty, position := some 0 }
  | first :: rest =>
    match readOr levels (first :: rest) with
    | .error f => .error (f.problem ts.stop)
    | .ok (condition, []) => .ok condition
    | .ok (_, t :: _) => .error { cause := .unexpected t.token, position := some t.position }

/-- The condition that a text stands for. -/
def parse (text : Text) : Except Failure Condition := do
  match ofTokens (← tokenize text) with
  | .ok condition => return condition
  | .error problem => throw (.problem problem)

end MailMerge.Condition
