import MailMerge.Proofs.Conditional.Passes
import MailMerge.Proofs.Nesting.Expansion
import MailMerge.Proofs.Section.Spans
import MailMerge.Section.Rendering
import Mathlib.Algebra.Group.Nat.Defs

/-!
# Texts with opaque sections

The outermost sections of a text are symbols among the characters and markers around them, and they
stay symbols when the conditionals around them are resolved: the placeholders that stand for them
meanwhile are left as they are, in their order.

**`tokens_setAside`**: with its sections set aside, a text has the tokens that its symbols stand for.

**`keep_setAside`**: what its conditionals keep are the tokens of the symbols that are left.
-/

namespace MailMerge.Section

open Marker (Token tokens joinTokens charTokens Sealed)
open Conditional (tokenRole tokenHolds)

variable {t : Text}

/-! ## Symbols -/

/-- What a text is made of if its sections are opaque: tokens, and sections with their numbers. -/
inductive Symbol where
  | token (k : Token)
  | span (s : Span) (index : Nat)

namespace Symbol

/-- What the symbol does to the conditionals around it: a section does nothing. -/
def role : Symbol → Nesting.Role
  | token k => tokenRole k
  | span .. => .plain

/-- The branch that the symbol begins has no condition, or its condition holds. -/
def holds (fields : Condition.Fields) : Symbol → Bool
  | token k => tokenHolds fields k
  | span .. => false

/-- The section with its number, if the symbol is one. -/
def span? : Symbol → Option (Span × Nat)
  | token _ => none
  | span s index => some (s, index)

/-- The tokens of the symbol where sections are set aside. -/
def tokensAside : Symbol → List Token
  | token k => [k]
  | span _ index => charTokens (Span.placeholder index)

end Symbol

/-- The symbols from an offset on, where the sections are numbered from an index on. -/
def symbolsFrom (t : Text) : (index offset : Nat) → List Span → List Symbol
  | _, offset, [] => (tokens (t.drop offset)).map .token
  | index, offset, s :: spans =>
    (tokens (Text.slice t offset s.start)).map .token
      ++ .span s index :: symbolsFrom t (index + 1) s.stop spans

/-- The symbols of a text. -/
def symbols (t : Text) : List Symbol :=
  symbolsFrom t 0 0 (Span.find t).1

/-- The symbols of a text, with its conditionals paired up. -/
def symbolPieces (t : Text) : List (Nesting.Piece Symbol) :=
  Nesting.pairUp Symbol.role (symbols t)

/-- The symbols that are left when each conditional is replaced by its selected branch. -/
def remaining (fields : Condition.Fields) (t : Text) : List Symbol :=
  Nesting.keep Symbol.role (Symbol.holds fields) (symbolPieces t)

theorem remaining_sublist (fields : Condition.Fields) (t : Text) :
    (remaining fields t).Sublist (symbols t) := by
  have h : (remaining fields t).Sublist (Nesting.flatten (symbolPieces t)) := Nesting.keep_sublist _
  rwa [symbolPieces, Nesting.flatten_pairUp] at h

theorem filterMap_symbolsFrom (t : Text) (index offset : Nat) (spans : List Span) :
    (symbolsFrom t index offset spans).filterMap Symbol.span? = spans.zipIdx index := by
  have htokens : ∀ ts : List Token, (ts.map Symbol.token).filterMap Symbol.span? = [] := by
    intro ts
    induction ts with
    | nil => rfl
    | cons k ts ih => exact ih
  induction spans generalizing index offset with
  | nil => exact htokens _
  | cons s spans ih =>
    rw [symbolsFrom, List.filterMap_append, htokens, List.nil_append, List.zipIdx_cons, ← ih]
    rfl

/-- **The sections that are left are sections of the text**, each once and in order. -/
theorem spans_remaining_sublist (fields : Condition.Fields) (t : Text) :
    ((remaining fields t).filterMap Symbol.span?).Sublist (Span.find t).1.zipIdx := by
  rw [← filterMap_symbolsFrom t 0 0]
  exact (remaining_sublist fields t).filterMap _

theorem getElem?_of_span_mem {s : Span} {index : Nat} (h : .span s index ∈ symbols t) :
    (Span.find t).1[index]? = some s := by
  have hm : (s, index) ∈ (symbols t).filterMap Symbol.span? :=
    List.mem_filterMap.2 ⟨.span s index, h, rfl⟩
  rw [symbols, filterMap_symbolsFrom] at hm
  exact List.mem_zipIdx_iff_getElem?.1 hm

theorem tokens_mem_symbolsFrom {offset : Nat} {spans : List Span} (hp : Span.Placed t offset spans)
    {ts us : List Token} (hb : Between t offset ts us) {index : Nat} {k : Token}
    (h : .token k ∈ symbolsFrom t index offset spans) : k ∈ tokens t := by
  induction spans generalizing offset ts us index with
  | nil =>
    rw [symbolsFrom, hb.drop, Marker.tokens_right hb.1] at h
    rw [hb.1]
    exact List.mem_append_right ts (by simpa using h)
  | cons s spans ih =>
    obtain ⟨hle, hs, hrest⟩ := hp
    obtain ⟨gap, opener, rest, htok, hslice, ts', us', hstop⟩ := hs.exists_gap hb hle
    have hseal : Sealed gap := (Marker.sealed_left htok).1.right
    rw [symbolsFrom, hslice, Marker.tokens_joinTokens hseal] at h
    rcases List.mem_append.1 h with h | h
    · rw [htok]
      simp [show k ∈ gap by simpa using h]
    · exact ih hrest hstop (by simpa using h)

/-- The tokens among the symbols are tokens of the text. -/
theorem mem_tokens_of_mem_symbols {k : Token} (h : .token k ∈ symbols t) : k ∈ tokens t :=
  tokens_mem_symbolsFrom (Span.placed_find t) (.zero t) h

theorem tokens_setAside_from {offset : Nat} {spans : List Span} (hp : Span.Placed t offset spans)
    {ts us : List Token} (hb : Between t offset ts us) (index : Nat) :
    tokens (Span.setAside t index offset spans) =
      (symbolsFrom t index offset spans).flatMap Symbol.tokensAside := by
  have htokens : ∀ ts : List Token, (ts.map Symbol.token).flatMap Symbol.tokensAside = ts := by
    intro ts
    induction ts with
    | nil => rfl
    | cons k ts ih => exact congrArg (k :: ·) ih
  induction spans generalizing offset ts us index with
  | nil => rw [Span.setAside, symbolsFrom, htokens]
  | cons s spans ih =>
    obtain ⟨hle, hs, hrest⟩ := hp
    obtain ⟨gap, opener, rest, htok, hslice, ts', us', hstop⟩ := hs.exists_gap hb hle
    have hseal : Sealed gap := (Marker.sealed_left htok).1.right
    rw [Span.setAside, symbolsFrom, hslice, List.append_assoc,
      Marker.tokens_joinTokens_append hseal, Marker.tokens_plain_append (Dialect.plain_placeholder index),
      ih hrest hstop, Marker.tokens_joinTokens hseal, List.flatMap_append, htokens,
      List.flatMap_cons]
    rfl

/-- **With its sections set aside, a text has the tokens that its symbols stand for.** -/
theorem tokens_setAside (t : Text) :
    tokens (Span.setAside t 0 0 (Span.find t).1) = (symbols t).flatMap Symbol.tokensAside :=
  tokens_setAside_from (Span.placed_find t) (.zero t) 0

/-! ## Conditionals among symbols -/

/-- Symbols are written out as the tokens of the text with its sections set aside. -/
def aside (fields : Condition.Fields) :
    Nesting.Expansion Symbol.role (Symbol.holds fields) tokenRole (tokenHolds fields) where
  items := Symbol.tokensAside
  one
    | .token k => k
    | .span .. => .char ' '
  items_one := fun {x} h => by
    cases x with
    | token k => rfl
    | span s index => exact absurd rfl h
  role_one := fun {x} h => by
    cases x with
    | token k => rfl
    | span s index => exact absurd rfl h
  holds_one := fun {x} h => by
    cases x with
    | token k => rfl
    | span s index => exact absurd rfl h
  plain := fun {x k} h hk => by
    cases x with
    | token k' =>
      obtain rfl := List.mem_singleton.1 hk
      exact h
    | span s index =>
      obtain ⟨c, -, rfl⟩ := List.mem_map.1 hk
      rfl

theorem pieces_setAside (fields : Condition.Fields) (t : Text) :
    Conditional.pieces (Span.setAside t 0 0 (Span.find t).1) =
      (aside fields).pieces (symbolPieces t) := by
  rw [Conditional.pieces, tokens_setAside]
  exact (aside fields).pairUp (symbols t)

/-- Conditionals leave the sections that are set aside alone. -/
theorem keep_setAside (fields : Condition.Fields) (t : Text) :
    Nesting.keep tokenRole (tokenHolds fields)
        (Conditional.pieces (Span.setAside t 0 0 (Span.find t).1)) =
      (remaining fields t).flatMap Symbol.tokensAside := by
  rw [pieces_setAside fields]
  exact (aside fields).keep_pieces (Nesting.settled_pairUp Symbol.role (symbols t))

/-- What resolving the conditionals of a text meets: the warnings about conditions, or a fault or
too many levels. -/
theorem resolve_setAside {ι : Type} (settings : Settings) (fields : Condition.Fields) (t : Text) :
    ∃ x : Except Fault (List Warning),
      (Conditional.resolve settings fields (Span.setAside t 0 0 (Span.find t).1) : Merging ι Text) =
        (Merging.ofFault x >>= fun ws =>
          if Nesting.depth (symbolPieces t) ≤ settings.maxPasses.toNat then
            .report ws [] (joinTokens ((remaining fields t).flatMap Symbol.tokensAside))
          else
            .fail (.passLimit settings.maxPasses (Span.setAside t 0 0 (Span.find t).1))) := by
  obtain ⟨x, hx, -⟩ := Conditional.resolve_eq (ι := ι) settings fields
    (Span.setAside t 0 0 (Span.find t).1)
  refine ⟨x, ?_⟩
  rw [hx, keep_setAside, pieces_setAside fields, (aside fields).depth_pieces]

/-! ## Numbers of sections -/

/-- The number of a section is read back, as long as it has not too many digits. -/
theorem placeholderNumber_ofNat (n : Nat) :
    placeholderNumber (Text.ofNat n) =
      if n < 10 ^ Numeral.maxDigits then .ok n else .error .longNumeral := by
  have hlen : (Text.ofNat n).length ≤ Numeral.maxDigits ↔ n < 10 ^ Numeral.maxDigits :=
    Text.length_ofNat_le_iff (by decide)
  rw [placeholderNumber, Numeral.ofDigits_ofNat]
  by_cases hn : n < 10 ^ Numeral.maxDigits
  · rw [if_pos hn, if_pos (hlen.2 hn)]
  · rw [if_neg hn, if_neg fun h => hn (hlen.1 h)]

end MailMerge.Section
