import MailMerge.Proofs.Conditional.Innermost
import MailMerge.Proofs.Conditional.Kept
import MailMerge.Proofs.Conditional.Passes
import MailMerge.Proofs.Nesting.Expansion
import MailMerge.Proofs.Text.Calm

/-!
# Lines cut into segments

A list of lines, each a line of plain text or a conditional marker with blanks around it, is cut
into segments: the lines of text, the markers, and the blanks on each side of a marker. The newline
before a line belongs to the line, or to the blanks at its start.

The segments can be written out in two ways: as the tokens of the text that the lines make up
(`asTokens`), and as the lines themselves (`asLines`). So the conditionals of that text and those over
the lines are paired up alike.

**`inkedLines_textOf`**: of segments without markers, the lines that are not blank are the lines of
text.
-/

namespace MailMerge.Conditional

open Marker (Token tokens joinTokens charTokens Sealed)
open Nesting (Piece flatten keep)

/-! ## Lines -/

/-- What a line does to the conditionals around it. -/
def lineRole (p : Paragraph) : Nesting.Role :=
  nodeRole (.paragraph p)

/-- The condition of the branch that a line begins. -/
def lineCondition (p : Paragraph) : Option Text :=
  nodeCondition (.paragraph p)

/-- There is no condition at the line, or it holds. -/
def lineHolds (fields : Condition.Fields) (p : Paragraph) : Bool :=
  conditionHolds fields (lineCondition p)

/-- One line with ink on it and without opening braces. -/
structure PlainLine (t : Text) : Prop where
  inked : Text.allBlank t = false
  unmarked : Text.contains Marker.opening t = false
  single : '\n' ∉ t

/-- The line is nothing but a conditional marker, or plain. -/
def IsLine (p : Paragraph) : Prop :=
  lineRole p ≠ .plain ∨ PlainLine p.text

theorem nodeMarker?_of_unmarked {p : Paragraph} (h : Text.contains Marker.opening p.text = false) :
    nodeMarker? (.paragraph p) = none := by
  cases hm : nodeMarker? (.paragraph p) with
  | none => rfl
  | some m =>
    obtain ⟨inner, -, htrim, -⟩ := Marker.trim_of_lone? (Option.filter_eq_some_iff.1 hm).1
    obtain ⟨a, b, ht, -, -⟩ := Text.exists_trim p.text
    refine absurd ?_ (Text.contains_eq_false_iff.1 h a (inner ++ Marker.closing ++ b))
    rw [ht, htrim]
    simp [Marker.enclose]

/-! ## Segments -/

/-- A line of text, a marker that fills a line, or the blanks before or after one. -/
inductive Segment where
  | text (p : Paragraph) (plain : PlainLine p.text)
  | lead (blanks : Text) (blank : ∀ c ∈ blanks, Text.isBlank c)
  | mark (p : Paragraph) (inner : Text) (fills : nodeMarker? (.paragraph p) = some (.ofInner inner 0))
      (closed : Text.FreeOf Marker.closing inner)
  | trail (blanks : Text) (blank : ∀ c ∈ blanks, Text.isBlank c)

namespace Segment

/-- What the segment does to the conditionals around it. -/
def role : Segment → Nesting.Role
  | mark p .. => lineRole p
  | _ => .plain

/-- There is no condition in the segment, or it holds. -/
def holds (fields : Condition.Fields) : Segment → Bool
  | mark p .. => lineHolds fields p
  | _ => true

/-- The characters of the segment, with the newline before it. -/
def chars : Segment → Text
  | text p _ => '\n' :: p.text
  | lead blanks _ => '\n' :: blanks
  | mark _ inner .. => Marker.enclose inner
  | trail blanks _ => blanks

/-- The tokens of the segment. -/
def tokens : Segment → List Token
  | mark _ inner .. => [.marker inner]
  | s => charTokens s.chars

/-- The line that the segment is, unless it is a part of one. -/
def lines : Segment → List Paragraph
  | text p _ => [p]
  | mark p .. => [p]
  | _ => []

/-- The segment begins a line. -/
def isStart : Segment → Bool
  | text .. => true
  | lead .. => true
  | _ => false

/-- The lines of text among segments. -/
def texts (ss : List Segment) : List Text :=
  (ss.flatMap lines).map (·.text)

theorem joinTokens_tokens (ss : List Segment) : joinTokens (ss.flatMap tokens) = ss.flatMap chars := by
  induction ss with
  | nil => rfl
  | cons s ss ih =>
    rw [List.flatMap_cons, Marker.joinTokens_append, ih, List.flatMap_cons]
    cases s <;> simp [tokens, chars, Token.text]

theorem lineRole_mark {p : Paragraph} {inner : Text}
    (h : nodeMarker? (.paragraph p) = some (.ofInner inner 0)) :
    tokenRole (.marker inner) = lineRole p :=
  (nodeRole_of_nodeMarker? h).symm

theorem lineCondition_mark {p : Paragraph} {inner : Text}
    (h : nodeMarker? (.paragraph p) = some (.ofInner inner 0)) :
    tokenCondition (.marker inner) = lineCondition p := by
  simp [lineCondition, nodeCondition, h, tokenCondition]

/-- Segments written out as the tokens of their text. -/
def asTokens (fields : Condition.Fields) :
    Nesting.Expansion role (holds fields) tokenRole (tokenHolds fields) where
  items := tokens
  one
    | mark _ inner .. => .marker inner
    | _ => .char ' '
  items_one := fun {s} h => by cases s <;> first | rfl | exact absurd rfl h
  role_one := fun {s} h => by
    cases s with
    | mark p inner fills => exact lineRole_mark fills
    | _ => rfl
  holds_one := fun {s} h => by
    cases s with
    | mark p inner fills => exact congrArg (conditionHolds fields) (lineCondition_mark fills)
    | _ => rfl
  plain := fun {s k} h hk => by
    cases s with
    | mark p inner fills =>
      obtain rfl := List.mem_singleton.1 hk
      exact (lineRole_mark fills).trans h
    | _ =>
      obtain ⟨c, -, rfl⟩ := List.mem_map.1 hk
      rfl

/-- Segments written out as lines. -/
def asLines (fields : Condition.Fields) :
    Nesting.Expansion role (holds fields) lineRole (lineHolds fields) where
  items := lines
  one
    | mark p .. => p
    | text p _ => p
    | _ => {}
  items_one := fun {s} h => by cases s <;> first | rfl | exact absurd rfl h
  role_one := fun {s} h => by cases s <;> first | rfl | exact absurd rfl h
  holds_one := fun {s} h => by cases s <;> first | rfl | exact absurd rfl h
  plain := fun {s p} h hp => by
    cases s with
    | mark p' inner fills =>
      obtain rfl := List.mem_singleton.1 hp
      exact h
    | text p' plain =>
      obtain rfl := List.mem_singleton.1 hp
      simp [lineRole, nodeRole, nodeKind, nodeMarker?_of_unmarked plain.unmarked]
    | _ => cases hp

/-- The two ways of writing a segment out keep its condition. -/
theorem condition_one (fields : Condition.Fields) (s : Segment) :
    tokenCondition ((asTokens fields).one s) = lineCondition ((asLines fields).one s) := by
  cases s with
  | mark p inner fills => exact lineCondition_mark fills
  | text p plain => simp [asTokens, asLines, tokenCondition, lineCondition, nodeCondition,
      nodeMarker?_of_unmarked plain.unmarked]
  | _ => simp [asTokens, asLines, tokenCondition, lineCondition, nodeCondition,
      nodeMarker?_of_unmarked (p := {}) (by decide)]

/-! ## Lines of text are followed by new lines -/

/-- What comes next begins a line. -/
def Breaks (ss : List Segment) : Prop :=
  ∃ s ∈ ss.head?, s.isStart

/-- Each line of text is followed by a segment that begins a line. -/
def Followed : List Segment → Prop
  | [] => True
  | .text .. :: ss => Breaks ss ∧ Followed ss
  | _ :: ss => Followed ss

theorem Breaks.append {ss : List Segment} (h : Breaks ss) (us : List Segment) :
    Breaks (ss ++ us) := by
  cases ss with
  | nil => simp [Breaks] at h
  | cons s ss => exact h

theorem divisible_followed : Nesting.Divisible role Followed where
  nil := trivial
  append {ss us} hs hu := by
    induction ss with
    | nil => exact hu
    | cons s ss ih =>
      cases s with
      | text p plain => exact ⟨hs.1.append us, ih hs.2⟩
      | _ => exact ih hs
  left {ss us m} hm h := by
    induction ss with
    | nil => trivial
    | cons s ss ih =>
      cases s with
      | text p plain =>
        refine ⟨?_, ih h.2⟩
        cases ss with
        | nil =>
          -- A marker begins no line, so it does not follow a line of text.
          cases m with
          | mark => simp [Followed, Breaks, isStart] at h
          | _ => exact absurd rfl hm
        | cons s' ss => exact h.1
      | _ => exact ih h
  right {ss us} h := by
    induction ss with
    | nil => exact h
    | cons s ss ih =>
      cases s with
      | text p plain => exact ih h.2
      | _ => exact ih h

/-- Segments that begin a line begin with the newline. -/
theorem exists_of_breaks {ss : List Segment} (h : Breaks ss) :
    ∃ t, ss.flatMap chars = '\n' :: t ∧ (ss.flatMap tokens).head? = some (.char '\n') := by
  obtain ⟨s, hs, hstart⟩ := h
  cases ss with
  | nil => cases hs
  | cons s' ss =>
    obtain rfl := Option.some.inj hs
    cases s' <;> first | exact ⟨_, rfl, rfl⟩ | cases hstart

theorem sealed_charTokens_append {t : Text} {ts : List Token}
    (ht : Text.contains Marker.opening t = false) (hhead : ts.head? = some (.char '\n'))
    (hs : Sealed ts) : Sealed (charTokens t ++ ts) := by
  induction t with
  | nil => exact hs
  | cons c t ih =>
    rw [Text.contains_eq_false_iff] at ht
    refine ⟨fun hc => ?_, ih (Text.contains_eq_false_iff.2 fun a b he => ht (c :: a) b (by rw [he]; rfl))⟩
    cases t with
    | nil => exact ⟨'\n', by decide, hhead⟩
    | cons d t => exact ⟨d, fun hd => ht [] t (by simp [hc, hd, Marker.opening]), rfl⟩

theorem sealed_charTokens_of_ne {t : Text} (h : ∀ c ∈ t, c ≠ '{') : Sealed (charTokens t) := by
  induction t with
  | nil => trivial
  | cons c t ih =>
    exact ⟨fun hc => absurd hc (h c List.mem_cons_self), ih fun d hd => h d (List.mem_cons_of_mem c hd)⟩

/-- The tokens of segments are those of their text. -/
theorem sealed_tokens {ss : List Segment} (h : Followed ss) : Sealed (ss.flatMap tokens) := by
  induction ss with
  | nil => trivial
  | cons s ss ih =>
    rw [List.flatMap_cons]
    cases s with
    | text p plain =>
      obtain ⟨-, -, hhead⟩ := exists_of_breaks h.1
      refine ⟨fun hc => absurd hc (by decide), ?_⟩
      exact sealed_charTokens_append plain.unmarked hhead (ih h.2)
    | lead blanks blank =>
      refine ⟨fun hc => absurd hc (by decide), ?_⟩
      exact Marker.sealed_append
        (sealed_charTokens_of_ne fun c hc => (Text.ne_brace_of_isBlank (blank c hc)).1) (ih h)
    | mark p inner fills closed => exact ⟨closed, ih h⟩
    | trail blanks blank =>
      exact Marker.sealed_append
        (sealed_charTokens_of_ne fun c hc => (Text.ne_brace_of_isBlank (blank c hc)).1) (ih h)

end Segment

/-! ## Lines that are not blank -/

/-- The lines of a text that are not blank. -/
def inkedLines (t : Text) : List Text :=
  (Text.lines t).filter fun l => !Text.allBlank l

theorem inkedLines_append (s t : Text) :
    inkedLines (s ++ '\n' :: t) = inkedLines s ++ inkedLines t := by
  rw [inkedLines, Text.lines, Text.splitOn_append, List.filter_append]
  rfl

theorem inkedLines_newline (t : Text) : inkedLines ('\n' :: t) = inkedLines t :=
  inkedLines_append [] t

theorem inkedLines_plain {t : Text} (h : PlainLine t) : inkedLines t = [t] := by
  simp [inkedLines, Text.lines, Text.splitOn_of_notMem h.single, h.inked]

theorem inkedLines_blank {t : Text} (h : ∀ c ∈ t, Text.isBlank c) : inkedLines t = [] := by
  refine List.filter_eq_nil_iff.2 fun l hl => ?_
  obtain ⟨a, b, ht⟩ := Text.exists_append_of_mem_join ['\n'] hl
  rw [Text.lines, Text.join_splitOn] at ht
  have hblank : Text.allBlank l = true :=
    List.all_eq_true.2 fun c hc => h c (by rw [ht]; simp [hc])
  simp [hblank]

namespace Segment

theorem role_mark {p : Paragraph} {inner : Text}
    (h : nodeMarker? (.paragraph p) = some (.ofInner inner 0)) : lineRole p ≠ .plain := by
  rw [lineRole, nodeRole_of_nodeMarker? h]
  exact (isConditional_iff _).1 (isConditional_of_nodeMarker? h)

/-- **Of segments without markers, the lines that are not blank are the lines of text.** Blanks that
stand before them are carried along, since they may be the start of a line. -/
theorem inkedLines_chars {ss : List Segment} (h : Followed ss) (hm : ∀ s ∈ ss, role s = .plain)
    {blanks : Text} (hb : ∀ c ∈ blanks, Text.isBlank c) :
    inkedLines (blanks ++ ss.flatMap chars) = texts ss := by
  induction ss generalizing blanks with
  | nil => simpa [texts] using inkedLines_blank hb
  | cons s ss ih =>
    have hrest : ∀ s ∈ ss, role s = .plain := fun s hs => hm s (List.mem_cons_of_mem _ hs)
    rw [List.flatMap_cons]
    cases s with
    | text p plain =>
      obtain ⟨t, ht, -⟩ := exists_of_breaks h.1
      have hi := ih h.2 hrest (List.forall_mem_nil _)
      rw [List.nil_append, ht, inkedLines_newline] at hi
      rw [ht, chars, List.cons_append, inkedLines_append, inkedLines_blank hb, inkedLines_append,
        inkedLines_plain plain, hi]
      rfl
    | lead t blank =>
      have hb' : ∀ c ∈ blanks ++ '\n' :: t, Text.isBlank c := by
        intro c hc
        rcases List.mem_append.1 hc with hc | hc
        · exact hb c hc
        · rcases List.mem_cons.1 hc with rfl | hc
          · decide
          · exact blank c hc
      simpa [chars, texts, lines] using ih h hrest hb'
    | mark p inner fills => exact absurd (hm _ List.mem_cons_self) (role_mark fills)
    | trail t blank =>
      have hb' : ∀ c ∈ blanks ++ t, Text.isBlank c := by
        intro c hc
        rcases List.mem_append.1 hc with hc | hc
        · exact hb c hc
        · exact blank c hc
      simpa [chars, texts, lines] using ih h hrest hb'

/-- A line that a marker fills is the marker with blanks around it. -/
theorem exists_of_role {p : Paragraph} (h : lineRole p ≠ .plain) :
    ∃ a inner b, p.text = a ++ Marker.enclose inner ++ b ∧
      nodeMarker? (.paragraph p) = some (.ofInner inner 0) ∧ Text.FreeOf Marker.closing inner ∧
      (∀ c ∈ a, Text.isBlank c) ∧ ∀ c ∈ b, Text.isBlank c := by
  obtain ⟨m, hm⟩ := exists_nodeMarker? h
  obtain ⟨inner, hfree, htrim, rfl⟩ := Marker.trim_of_lone? (Option.filter_eq_some_iff.1 hm).1
  obtain ⟨a, b, ht, ha, hb⟩ := Text.exists_trim p.text
  exact ⟨a, inner, b, by rw [← htrim]; exact ht, hm, hfree, ha, hb⟩

/-- Lines are cut into segments, each line of text being followed by a new line if one comes after
them. -/
theorem exists_segments {ps : List Paragraph} (h : ∀ p ∈ ps, IsLine p) :
    ∃ ss : List Segment, ss.flatMap lines = ps ∧
      ss.flatMap chars = (ps.map (·.text)).flatMap ('\n' :: ·) ∧
      ∀ us, Breaks us → Followed us → Breaks (ss ++ us) ∧ Followed (ss ++ us) := by
  induction ps with
  | nil => exact ⟨[], rfl, rfl, fun us hb hf => ⟨hb, hf⟩⟩
  | cons p ps ih =>
    obtain ⟨ss, hlines, hchars, hends⟩ := ih fun q hq => h q (List.mem_cons_of_mem p hq)
    by_cases hr : lineRole p = .plain
    · have plain : PlainLine p.text := (h p List.mem_cons_self).resolve_left (not_not.2 hr)
      refine ⟨.text p plain :: ss, by simp [lines, hlines], by simp [chars, hchars], ?_⟩
      intro us hb hf
      exact ⟨⟨_, rfl, rfl⟩, hends us hb hf⟩
    · obtain ⟨a, inner, b, ht, hm, hfree, ha, hb⟩ := exists_of_role hr
      refine ⟨.lead a ha :: .mark p inner hm hfree :: .trail b hb :: ss, by simp [lines, hlines],
        by simp [chars, hchars, ht], ?_⟩
      intro us hb' hf
      exact ⟨⟨_, rfl, rfl⟩, (hends us hb' hf).2⟩

end Segment

end MailMerge.Conditional
