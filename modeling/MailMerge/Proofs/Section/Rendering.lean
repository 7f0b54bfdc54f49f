import MailMerge.Proofs.Conditional.Agreement
import MailMerge.Proofs.Merge.Results
import MailMerge.Proofs.Section.Spans
import MailMerge.Section.Rendering
import Mathlib.Data.List.Forall2

/-!
# Rendering in two contexts

Two runs over the same template write the same characters outside markers, and in place of each
marker texts that may differ. The texts that come out are related piece by piece.

Two contexts are in lockstep if the markers of a dialect read alike in them: conditions have the same
value, fields write related texts, and sections repeat over as many records, which bring contexts in
lockstep again. A template is then rendered to related texts, or fails in the same way: what is
written in place of a marker is never read as a marker or a placeholder.

**`written_fill`**: a template is filled in with related texts to related texts.

**`agree_substitute`**: fields are filled in with related texts.

**`agree_render`**: templates are rendered to related texts.
-/

namespace MailMerge.Section

open Marker (Token charTokens)

variable {follows : Char → Text → Prop} {writes : Text → Text → Prop} {l r l' r' : Text}

/-- How the texts may differ that two runs write in place of the same marker. -/
structure Filling where
  writes : Text → Text → Prop
  noPlaceholder {l r : Text} : writes l r → Span.placeholderStart ∉ l ∧ Span.placeholderStart ∉ r
  nil {l r : Text} : writes l r → (l = [] ↔ r = [])
  newline {l r : Text} : writes l r → (l.getLast? = some '\n' ↔ r.getLast? = some '\n')
  dropLast {l r : Text} : writes l r → l.getLast? = some '\n' → writes l.dropLast r.dropLast

/-- The texts are the same characters, each followed by what has to follow it, and related texts in
place of markers. -/
inductive Written (D : Dialect) (F : Filling) : Text → Text → Prop
  | nil : Written D F [] []
  | char {c : Char} {x l r : Text} : D.follows c x → Written D F (x ++ l) (x ++ r) →
      Written D F (c :: (x ++ l)) (c :: (x ++ r))
  | text {l r l' r' : Text} : F.writes l r → Written D F l' r' → Written D F (l ++ l') (r ++ r')

namespace Written

variable {D : Dialect} {F : Filling}

theorem of_writes (h : F.writes l r) : Written D F l r := by
  simpa using Written.text (D := D) h .nil

theorem append (h : Written D F l r) (h' : Written D F l' r') :
    Written D F (l ++ l') (r ++ r') := by
  induction h with
  | nil => exact h'
  | char hc _ ih =>
    rw [List.cons_append, List.cons_append, List.append_assoc, List.append_assoc]
    refine .char hc ?_
    simpa using ih
  | text hw _ ih =>
    rw [List.append_assoc, List.append_assoc]
    exact .text hw ih

theorem flatten {ls rs : List Text} (h : List.Forall₂ (Written D F) ls rs) :
    Written D F ls.flatten rs.flatten := by
  induction h with
  | nil => exact .nil
  | cons hw _ ih => exact hw.append ih

theorem eq_nil_iff (h : Written D F l r) : l = [] ↔ r = [] := by
  induction h with
  | nil => exact Iff.rfl
  | char => simp
  | text hw _ ih => rw [List.append_eq_nil_iff, List.append_eq_nil_iff, F.nil hw, ih]

/-- The texts end with a newline at the same time, and it can be left out of both. -/
theorem newline (h : Written D F l r) :
    (l.getLast? = some '\n' ↔ r.getLast? = some '\n') ∧
      (l.getLast? = some '\n' → Written D F l.dropLast r.dropLast) := by
  induction h with
  | nil => exact ⟨Iff.rfl, fun h => by cases h⟩
  | @char c x l r hc h ih =>
    by_cases hnil : x ++ l = []
    · have hnil' : x ++ r = [] := h.eq_nil_iff.1 hnil
      rw [hnil, hnil']
      exact ⟨Iff.rfl, fun _ => .nil⟩
    · have hnil' : x ++ r ≠ [] := fun hr => hnil (h.eq_nil_iff.2 hr)
      have hlast : ∀ y : Text, y ≠ [] → (c :: y).getLast? = y.getLast? := by
        intro y hy
        cases y with
        | nil => exact absurd rfl hy
        | cons d y => exact List.getLast?_cons_cons
      rw [hlast _ hnil, hlast _ hnil']
      refine ⟨ih.1, fun hn => ?_⟩
      -- A newline at the end stands behind what has to follow the character.
      have hne : ∀ y : Text, (x ++ y).getLast? = some '\n' → y ≠ [] := by
        rintro y hy rfl
        rw [List.append_nil] at hy
        exact D.oneLine hc (List.mem_of_getLast? hy)
      have hd := ih.2 hn
      rw [List.dropLast_append_of_ne_nil (hne l hn),
        List.dropLast_append_of_ne_nil (hne r (ih.1.1 hn))] at hd
      rw [List.dropLast_cons_of_ne_nil hnil, List.dropLast_cons_of_ne_nil hnil',
        List.dropLast_append_of_ne_nil (hne l hn),
        List.dropLast_append_of_ne_nil (hne r (ih.1.1 hn))]
      exact .char hc hd
  | @text l r l' r' hw h ih =>
    by_cases hnil : l' = []
    · have hnil' : r' = [] := h.eq_nil_iff.1 hnil
      subst hnil hnil'
      rw [List.append_nil, List.append_nil]
      exact ⟨F.newline hw, fun hn => .of_writes (F.dropLast hw hn)⟩
    · have hnil' : r' ≠ [] := fun hr => hnil (h.eq_nil_iff.2 hr)
      rw [List.getLast?_append, List.getLast?_append, List.getLast?_eq_some_getLast hnil,
        List.getLast?_eq_some_getLast hnil', Option.some_or, Option.some_or,
        ← List.getLast?_eq_some_getLast hnil, ← List.getLast?_eq_some_getLast hnil',
        List.dropLast_append_of_ne_nil hnil, List.dropLast_append_of_ne_nil hnil']
      exact ⟨ih.1, fun hn => .text hw (ih.2 hn)⟩

/-- **The texts of a section stay related without the newline that is one too many.** -/
theorem trimmed (h : Written D F l r) (s : Span) : Written D F (s.trimmed l) (s.trimmed r) := by
  unfold Span.trimmed
  by_cases hl : s.trimNewline ∧ l.getLast? = some '\n'
  · rw [if_pos hl, if_pos ⟨hl.1, h.newline.1.1 hl.2⟩]
    exact h.newline.2 hl.2
  · rw [if_neg hl, if_neg fun hr => hl ⟨hr.1, h.newline.1.2 hr.2⟩]
    exact h

end Written

/-! ## Filling in a template -/

/-- The text of a token, where a marker stands for what it is filled in with. -/
def fillToken (value : Text → Text) : Token → Text
  | .char c => [c]
  | .marker inner => value inner

/-- The text of tokens, where markers stand for what they are filled in with. -/
def fill (value : Text → Text) (ts : List Token) : Text :=
  ts.flatMap (fillToken value)

@[simp] theorem fill_nil (value : Text → Text) : fill value [] = [] := rfl

@[simp] theorem fill_char (value : Text → Text) (c : Char) (ts : List Token) :
    fill value (.char c :: ts) = c :: fill value ts := rfl

@[simp] theorem fill_marker (value : Text → Text) (inner : Text) (ts : List Token) :
    fill value (.marker inner :: ts) = value inner ++ fill value ts := rfl

@[simp] theorem fill_charTokens_append (value : Text → Text) (x : Text) (ts : List Token) :
    fill value (charTokens x ++ ts) = x ++ fill value ts := by
  induction x with
  | nil => rfl
  | cons c x ih => exact congrArg (c :: ·) ih

/-- **A template is filled in with related texts to related texts.** -/
theorem written_fill {D : Dialect} {F : Filling} {value value' : Text → Text} {ts : List Token}
    (hg : Guarded D.follows ts)
    (hv : ∀ inner, .marker inner ∈ ts → F.writes (value inner) (value' inner)) :
    Written D F (fill value ts) (fill value' ts) := by
  induction ts with
  | nil => exact .nil
  | cons k ts ih =>
    have hrest : ∀ inner, .marker inner ∈ ts → F.writes (value inner) (value' inner) :=
      fun inner hm => hv inner (List.mem_cons_of_mem k hm)
    cases k with
    | marker inner => exact .text (hv inner List.mem_cons_self) (ih hg hrest)
    | char c =>
      obtain ⟨⟨x, hx, us, rfl⟩, hg⟩ := hg
      have := ih hg hrest
      rw [fill_charTokens_append, fill_charTokens_append] at this
      rw [fill_char, fill_char, fill_charTokens_append, fill_charTokens_append]
      exact .char hx this

/-! ## Pieces of a text with placeholders -/

theorem takePlaceholder?_of_ne {c : Char} (h : c ≠ Span.placeholderStart) (t : Text) :
    Span.takePlaceholder? (c :: t) = none := by
  unfold Span.takePlaceholder?
  dsimp only
  split
  · rfl
  · rw [if_neg fun hc => h hc.1]

theorem pieces_cons_of_ne {c : Char} (h : c ≠ Span.placeholderStart) (t : Text) :
    Span.pieces (c :: t) = .char c :: Span.pieces t := by
  rw [Span.pieces]
  split
  · next hp =>
    rw [takePlaceholder?_of_ne h] at hp
    cases hp
  · rfl

theorem pieces_append {x : Text} (hx : Span.placeholderStart ∉ x) (t : Text) :
    Span.pieces (x ++ t) = x.map .char ++ Span.pieces t := by
  induction x with
  | nil => rfl
  | cons c x ih =>
    rw [List.mem_cons, not_or] at hx
    rw [List.cons_append, pieces_cons_of_ne (Ne.symm hx.1), ih hx.2]
    rfl

theorem pieces_placeholder {x : Text} (hx : IsPlaceholderTail x) (t : Text) :
    ∃ digits, x = digits ++ [Span.placeholderEnd] ∧
      Span.pieces (Span.placeholderStart :: (x ++ t)) = .placeholder digits :: Span.pieces t := by
  obtain ⟨digits, hne, hd, rfl⟩ := hx
  have hend : Text.isDecimalDigit Span.placeholderEnd = false := by decide
  have htake : Span.takePlaceholder? (Span.placeholderStart ::
      (digits ++ [Span.placeholderEnd] ++ t)) = some (digits, t) := by
    have h₁ : (digits ++ [Span.placeholderEnd] ++ t).takeWhile Text.isDecimalDigit = digits := by
      rw [List.append_assoc, List.takeWhile_append_of_pos hd, List.singleton_append,
        List.takeWhile_cons_of_neg (by simp [hend]), List.append_nil]
    have h₂ : (digits ++ [Span.placeholderEnd] ++ t).dropWhile Text.isDecimalDigit =
        Span.placeholderEnd :: t := by
      rw [List.append_assoc, List.dropWhile_append_of_pos hd, List.singleton_append,
        List.dropWhile_cons_of_neg (by simp [hend])]
    unfold Span.takePlaceholder?
    simp only [h₁, h₂]
    rw [if_pos ⟨trivial, hne, trivial⟩]
  refine ⟨digits, rfl, ?_⟩
  rw [Span.pieces]
  split
  · next hp =>
    rw [htake] at hp
    obtain ⟨rfl, rfl⟩ := Prod.mk.inj (Option.some.inj hp)
    rfl
  · next hp =>
    rw [htake] at hp
    cases hp

end MailMerge.Section

namespace MailMerge

open Marker (Token tokens charTokens)
open Merging (Agree)

namespace Section

/-- Contexts in which the markers of a dialect read alike, up to a relation between what is written
in place of a marker. -/
structure Lockstep (settings : Settings) (D : Dialect) (F : Filling) where
  scopes : Context → Context → Prop
  condition {c c' : Context} {inner : Text} : scopes c c' → D.admits inner →
    Conditional.AgreeOn c.resolve c'.resolve inner
  field {c c' : Context} {inner : Text} : scopes c c' → D.admits inner →
    Agree F.writes (Field.replace settings c true inner) (Field.replace settings c' true inner)
  records {ι : Type} {c c' : Context} {inner : Text} : scopes c c' → D.admits inner →
    (Marker.classify inner).kind = .sectionStart → ∀ start nested,
    Agree (List.Forall₂ fun record record' => ∀ k, scopes (c.forRow record k) (c'.forRow record' k))
      (Section.records (ι := ι) settings (Marker.ofInner inner start) c nested)
      (Section.records (ι := ι) settings (Marker.ofInner inner start) c' nested)

variable {settings : Settings} {D : Dialect} {F : Filling} {c c' : Context}

/-! ## Filling in fields -/

/-- The tokens of a text with each marker replaced. -/
def replaceTokens (settings : Settings) (c : Context) : List Token → Merging ImageRequest Text
  | [] => pure []
  | .char ch :: ts => do return ch :: (← replaceTokens settings c ts)
  | .marker inner :: ts => do
    let replaced ← Field.replace settings c true inner
    let after ← replaceTokens settings c ts
    return replaced ++ after

theorem replaceTokens_charTokens (gap : Text) (ts : List Token) :
    replaceTokens settings c (charTokens gap ++ ts) =
      (gap ++ ·) <$> replaceTokens settings c ts := by
  induction gap with
  | nil =>
    show _ = (fun t => t) <$> _
    exact (id_map _).symm
  | cons ch gap ih =>
    show (List.cons ch <$> replaceTokens settings c (charTokens gap ++ ts)) = _
    rw [ih, Functor.map_map]
    rfl

theorem substitute_eq (settings : Settings) (c : Context) (t : Text) :
    Field.substitute settings c true t = replaceTokens settings c (tokens t) := by
  show Field.replaceSegments settings c true (Marker.segments t).2 (Marker.segments t).1 =
    replaceTokens settings c (Marker.segmentTokens (Marker.segments t).1 (Marker.segments t).2)
  generalize (Marker.segments t).2 = tail
  generalize (Marker.segments t).1 = segments
  induction segments with
  | nil =>
    show pure tail = replaceTokens settings c (charTokens tail)
    rw [← List.append_nil (charTokens tail), replaceTokens_charTokens]
    simp [replaceTokens]
  | cons s segments ih =>
    obtain ⟨gap, inner⟩ := s
    have hs : Marker.segmentTokens ((gap, inner) :: segments) tail =
        charTokens gap ++ .marker inner :: Marker.segmentTokens segments tail := by
      simp [Marker.segmentTokens]
    rw [hs, replaceTokens_charTokens]
    show Field.replaceSegments settings c true tail ((gap, inner) :: segments) = _
    simp only [Field.replaceSegments, replaceTokens, map_bind, map_pure, List.append_assoc]
    refine bind_congr fun replaced => ?_
    exact congrArg (· >>= _) ih

/-- What is written in place of a marker; nothing if that fails. -/
def valueAt (settings : Settings) (c : Context) (inner : Text) : Text :=
  match Field.replace settings c true inner with
  | Except.ok (t, _) => t
  | Except.error _ => []

theorem agree_valueAt (L : Lockstep settings D F) (hs : L.scopes c c') {inner : Text}
    (hi : D.admits inner) :
    Agree (fun l r => l = valueAt settings c inner ∧ r = valueAt settings c' inner ∧ F.writes l r)
      (Field.replace settings c true inner) (Field.replace settings c' true inner) := by
  have h := L.field hs hi
  unfold valueAt
  unfold Agree at h ⊢
  cases hx : Field.replace settings c true inner with
  | error e =>
    cases hy : Field.replace settings c' true inner with
    | error e' =>
      rw [hx, hy] at h
      exact h
    | ok s =>
      rw [hx, hy] at h
      cases h
  | ok r =>
    cases hy : Field.replace settings c' true inner with
    | error e' =>
      rw [hx, hy] at h
      cases h
    | ok s =>
      rw [hx, hy] at h
      exact ⟨rfl, rfl, h⟩

/-- Related texts are written in place of the markers among tokens, the same for each of them. -/
def FilledAlike (settings : Settings) (F : Filling) (c c' : Context) (ts : List Token)
    (l r : Text) : Prop :=
  l = fill (valueAt settings c) ts ∧ r = fill (valueAt settings c') ts ∧
    ∀ inner, .marker inner ∈ ts → F.writes (valueAt settings c inner) (valueAt settings c' inner)

theorem agree_replaceTokens (L : Lockstep settings D F) (hs : L.scopes c c') {ts : List Token}
    (hi : ∀ inner, .marker inner ∈ ts → D.admits inner) :
    Agree (FilledAlike settings F c c' ts) (replaceTokens settings c ts)
      (replaceTokens settings c' ts) := by
  induction ts with
  | nil => exact Merging.agree_pure ⟨rfl, rfl, by simp⟩
  | cons k ts ih =>
    have ih := ih fun inner hm => hi inner (List.mem_cons_of_mem k hm)
    cases k with
    | char ch =>
      refine ih.bind fun l r hlr => Merging.agree_pure ?_
      obtain ⟨rfl, rfl, hw⟩ := hlr
      exact ⟨rfl, rfl, by simpa using hw⟩
    | marker inner =>
      refine (agree_valueAt L hs (hi inner List.mem_cons_self)).bind fun l r hlr => ?_
      refine ih.bind fun l' r' hlr' => Merging.agree_pure ?_
      obtain ⟨rfl, rfl, hw⟩ := hlr
      obtain ⟨rfl, rfl, hw'⟩ := hlr'
      refine ⟨rfl, rfl, fun i hm => ?_⟩
      rcases List.mem_cons.1 hm with hm | hm
      · obtain rfl : i = inner := by simpa using hm
        exact hw
      · exact hw' i hm

/-- **Fields are filled in with related texts.** -/
theorem agree_substitute (L : Lockstep settings D F) (hs : L.scopes c c') {t : Text}
    (ht : D.Template t) :
    Agree (Written D F) (Field.substitute settings c true t) (Field.substitute settings c' true t) := by
  rw [substitute_eq, substitute_eq]
  refine (agree_replaceTokens L hs fun inner hm => ht.admits hm).mono ?_
  rintro l r ⟨rfl, rfl, hw⟩
  exact written_fill ht.1 hw

/-! ## Putting sections back -/

/-- A piece of a text with something put in place of placeholders. -/
def putPiece (put : Text → Merging ImageRequest Text) : Span.Piece → Merging ImageRequest Text
  | .char ch => pure [ch]
  | .placeholder digits => put digits

variable {put put' : Text → Merging ImageRequest Text}

theorem mapM_putPiece_chars (x : Text) :
    (x.map Span.Piece.char).mapM (putPiece put) = pure (x.map fun ch => [ch]) := by
  induction x with
  | nil => rfl
  | cons ch x ih =>
    rw [List.map_cons, List.mapM_cons, ih]
    simp [putPiece]

theorem mapM_putPiece_append {x : Text} (hx : Span.placeholderStart ∉ x) (t : Text) :
    (Span.pieces (x ++ t)).mapM (putPiece put) =
      (x.map (fun ch => [ch]) ++ ·) <$> (Span.pieces t).mapM (putPiece put) := by
  rw [pieces_append hx, List.mapM_append, mapM_putPiece_chars, pure_bind, bind_pure_comp]

theorem flatten_map_singleton (x : Text) : (x.map fun ch => [ch]).flatten = x := by
  induction x with
  | nil => rfl
  | cons ch x ih => exact congrArg (ch :: ·) ih

theorem agree_map_iff {ι κ α β γ δ : Type} {R : γ → δ → Prop} {x : Merging ι α} {y : Merging κ β}
    {f : α → γ} {g : β → δ} :
    Agree R (f <$> x) (g <$> y) ↔ Agree (fun a b => R (f a) (g b)) x y := by
  cases x <;> cases y <;> rfl

/-- The texts that are made of pieces in two runs are related. -/
def PiecesAlike (D : Dialect) (F : Filling) (ls rs : List Text) : Prop :=
  Written D F ls.flatten rs.flatten

theorem agree_putPieces (hput : ∀ digits, Agree (Written D F) (put digits) (put' digits))
    {value value' : Text → Text} {ts : List Token} (hg : Guarded D.followsAside ts)
    (hv : ∀ inner, .marker inner ∈ ts → F.writes (value inner) (value' inner)) :
    Agree (PiecesAlike D F) ((Span.pieces (fill value ts)).mapM (putPiece put))
      ((Span.pieces (fill value' ts)).mapM (putPiece put')) := by
  induction hn : ts.length using Nat.strongRecOn generalizing ts with
  | ind n ih =>
    cases ts with
    | nil =>
      rw [fill_nil, fill_nil, Span.pieces, List.mapM_nil, List.mapM_nil]
      exact Merging.agree_pure .nil
    | cons k ts =>
      have hv' : ∀ inner, .marker inner ∈ ts → F.writes (value inner) (value' inner) :=
        fun inner hm => hv inner (List.mem_cons_of_mem k hm)
      have hlt : ts.length < n := by
        rw [← hn]
        exact Nat.lt_succ_self _
      cases k with
      | marker inner =>
        have hw := hv inner List.mem_cons_self
        have hg' : Guarded D.followsAside ts := hg
        obtain ⟨hl, hr⟩ := F.noPlaceholder hw
        rw [fill_marker, fill_marker, mapM_putPiece_append hl, mapM_putPiece_append hr, agree_map_iff]
        refine (ih ts.length hlt hg' hv' rfl).mono fun ls rs h => ?_
        unfold PiecesAlike at h ⊢
        rw [List.flatten_append, List.flatten_append, flatten_map_singleton, flatten_map_singleton]
        exact .text hw h
      | char ch =>
        obtain ⟨⟨x, hx, us, rfl⟩, hg⟩ := hg
        rw [fill_char, fill_char, fill_charTokens_append, fill_charTokens_append]
        rcases hx with hx | ⟨rfl, hx⟩
        · -- A character, together with what has to follow it.
          have hno := D.noPlaceholder hx
          rw [← List.cons_append, ← List.cons_append, mapM_putPiece_append hno,
            mapM_putPiece_append hno, agree_map_iff]
          have hi := ih _ hlt hg hv' rfl
          rw [List.mem_cons, not_or] at hno
          rw [fill_charTokens_append, fill_charTokens_append, mapM_putPiece_append hno.2,
            mapM_putPiece_append hno.2, agree_map_iff] at hi
          refine hi.mono fun ls rs h => ?_
          unfold PiecesAlike at h ⊢
          rw [List.flatten_append, List.flatten_append, flatten_map_singleton] at h
          rw [List.flatten_append, List.flatten_append, flatten_map_singleton]
          exact .char hx h
        · -- A placeholder.
          obtain ⟨digits, hd, hp⟩ := pieces_placeholder hx (fill value us)
          obtain ⟨digits', hd', hp'⟩ := pieces_placeholder hx (fill value' us)
          obtain rfl : digits = digits' := (List.append_inj' (hd.symm.trans hd') rfl).1
          rw [hp, hp', List.mapM_cons, List.mapM_cons]
          refine (hput digits).bind fun l r hlr => ?_
          have hlt' : us.length < n := by
            rw [List.length_append] at hlt
            omega
          refine (ih us.length hlt' hg.right
            (fun inner hm => hv' inner (List.mem_append_right _ hm)) rfl).bind fun ls rs h => ?_
          exact Merging.agree_pure (Written.append hlr h)

/-! ## Rendering -/

/-- A section put in place of its placeholder. -/
def putSpan (settings : Settings) (c : Context) (nested : Bool) (spans : List Span)
    (digits : Text) : Merging ImageRequest Text := do
  let index ← .ofFault (placeholderNumber digits)
  match spans[index]? with
  | none => .fail (.fault .unknownPlaceholder)
  | some s => do
    let records ← Section.records settings s.opener c nested
    let texts ← records.zipIdx.mapM fun (record, i) =>
      render settings (c.forRow record i) true s.body
    return s.trimmed texts.flatten

theorem render_eq (settings : Settings) (c : Context) (nested : Bool) (t : Text) :
    render settings c nested t =
      (Merging.report (Span.find t).2 [] () >>= fun _ =>
        Conditional.resolve settings c.resolve (Span.setAside t 0 0 (Span.find t).1) >>= fun outer =>
          Field.substitute settings c true outer >>= fun outer =>
            if (Span.find t).1.isEmpty then pure outer
            else List.flatten <$>
              (Span.pieces outer).mapM (putPiece (putSpan settings c nested (Span.find t).1))) := by
  rw [render]
  refine bind_congr fun _ => bind_congr fun _ => bind_congr fun outer => ?_
  have hempty : (Span.find t).1.attach.isEmpty = (Span.find t).1.isEmpty := by
    rw [Bool.eq_iff_iff, List.isEmpty_iff, List.isEmpty_iff, List.attach_eq_nil_iff]
  rw [hempty]
  by_cases he : (Span.find t).1.isEmpty
  · rw [if_pos he, if_pos he]
  · rw [if_neg he, if_neg he]
    rw [← bind_pure_comp]
    refine congrArg (fun put => (Span.pieces outer).mapM put >>= fun texts => pure texts.flatten)
      (funext fun piece => ?_)
    cases piece with
    | char ch => rfl
    | placeholder digits =>
      show (_ >>= _) = (_ >>= _)
      refine bind_congr fun index => ?_
      have hget : ((Span.find t).1.attach[index]?).map Subtype.val = (Span.find t).1[index]? := by
        rw [← List.getElem?_map, List.attach_map_subtype_val]
      rw [← hget]
      cases (Span.find t).1.attach[index]? with
      | none => rfl
      | some s => rfl

theorem agree_putSpan (L : Lockstep settings D F) (hs : L.scopes c c') (nested : Bool) {t : Text}
    (ht : D.Template t)
    (ih : ∀ {u : Text} {d d' : Context}, u.length < t.length → L.scopes d d' → D.Template u →
      Agree (Written D F) (render settings d true u) (render settings d' true u)) (digits : Text) :
    Agree (Written D F) (putSpan settings c nested (Span.find t).1 digits)
      (putSpan settings c' nested (Span.find t).1 digits) := by
  unfold putSpan
  refine (Merging.agree_ofFault fun i _ => (rfl : i = i)).bind ?_
  rintro index _ rfl
  cases hg : (Span.find t).1[index]? with
  | none => exact Merging.agree_fail _ _
  | some s =>
    have hmem := List.mem_of_getElem? hg
    have hbetween := Span.isBetween_of_mem_find hmem
    obtain ⟨inner, hi, ho, hk⟩ := Span.admits_opener ht hbetween
    have hbody := Span.template_body ht hbetween
    have hlen := Span.length_body_of_mem_find hmem
    dsimp only
    rw [ho]
    refine (L.records hs hi hk s.start nested).bind fun rs rs' hrs => ?_
    refine Agree.bind (R := List.Forall₂ (Written D F)) ?_ fun ls ls' h =>
      Merging.agree_pure ((Written.flatten h).trimmed s)
    refine Agree.mapM (Merging.forall₂_zipIdx hrs 0) ?_
    rintro ⟨record, i⟩ ⟨record', i'⟩ ⟨hscope, hidx⟩
    obtain rfl : i = i' := hidx
    exact ih hlen (hscope i) hbody

/-- **Templates are rendered to related texts**, or fail in the same way. -/
theorem agree_render (L : Lockstep settings D F) (hs : L.scopes c c') (nested : Bool) {t : Text}
    (ht : D.Template t) :
    Agree (Written D F) (render settings c nested t) (render settings c' nested t) := by
  induction hn : t.length using Nat.strongRecOn generalizing t c c' nested with
  | ind n ih =>
    have hput := agree_putSpan L hs nested ht fun hlt hs hu => ih _ (hn ▸ hlt) hs true hu rfl
    have haside := Dialect.fitsAside_setAside ht
    rw [render_eq, render_eq]
    refine (Merging.agree_report (R := fun _ _ => True) trivial _ _ _ _).bind fun _ _ _ => ?_
    rw [← Conditional.resolve_congr (ι := ImageRequest) settings
      (fun inner hm => L.condition hs (haside.2 _ hm inner rfl))]
    -- Up to here both runs are at the same text.
    refine Agree.bind (R := fun l r => l = r ∧ D.FitsAside (tokens l) ∧
      ((Span.find t).1.isEmpty → D.Template l)) ?_ ?_
    · refine Merging.agree_self fun u log hu => ⟨rfl, ?_, fun he => ?_⟩
      · exact Conditional.tokens_of_resolve Dialect.divisible_fitsAside haside hu
      · rw [List.isEmpty_iff.1 he] at hu
        exact Conditional.tokens_of_resolve Dialect.divisible_fits ht hu
    · rintro u _ ⟨rfl, hu, hempty⟩
      by_cases he : (Span.find t).1.isEmpty
      · refine (agree_substitute L hs (hempty he)).bind fun l r h => ?_
        rw [if_pos he, if_pos he]
        exact Merging.agree_pure h
      · rw [substitute_eq, substitute_eq]
        refine (agree_replaceTokens L hs fun inner hm => hu.2 _ hm inner rfl).bind ?_
        rintro l r ⟨rfl, rfl, hw⟩
        rw [if_neg he, if_neg he, agree_map_iff]
        exact agree_putPieces hput hu.1 hw

end Section
end MailMerge
