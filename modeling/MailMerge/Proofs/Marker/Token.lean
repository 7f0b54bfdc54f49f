import MailMerge.Marker.Scan
import MailMerge.Proofs.Text.Cut

/-!
# Texts as tokens

A text is read as a list of tokens: its markers, and the single characters around them. Parts of a
text can be taken out and put together again on the tokens, as long as no two opening braces meet
that stood apart. A list of tokens is sealed if none of its opening braces can meet a following
one: each is followed, within the list, by a character that is no opening brace.

**`tokens_joinTokens_append`**: the tokens of a sealed list stay the same in front of any text.

**`tokens_splits`**: the tokens of every text are a sealed list and characters without a marker.
-/

namespace MailMerge.Marker

/-- A piece of a text: a character outside markers, or a marker by the text between its braces. -/
inductive Token where
  | char (c : Char)
  | marker (inner : Text)
deriving DecidableEq, Repr

namespace Token

/-- The characters of the token. -/
def text : Token → Text
  | char c => [c]
  | marker inner => enclose inner

/-- The text between the braces of a marker. -/
def inner? : Token → Option Text
  | char _ => none
  | marker inner => some inner

end Token

/-- The text that tokens make up. -/
def joinTokens (ts : List Token) : Text :=
  ts.flatMap Token.text

/-- The characters of a text as tokens. -/
def charTokens (t : Text) : List Token :=
  t.map .char

/-- The tokens of segments and of the text after them. -/
def segmentTokens (segments : List (Text × Text)) (tail : Text) : List Token :=
  segments.flatMap (fun (gap, inner) => charTokens gap ++ [.marker inner]) ++ charTokens tail

/-- The tokens of a text. -/
def tokens (t : Text) : List Token :=
  segmentTokens (segments t).1 (segments t).2

@[simp] theorem joinTokens_nil : joinTokens [] = [] := rfl

@[simp] theorem joinTokens_cons (k : Token) (ts : List Token) :
    joinTokens (k :: ts) = k.text ++ joinTokens ts := rfl

@[simp] theorem joinTokens_append (ts us : List Token) :
    joinTokens (ts ++ us) = joinTokens ts ++ joinTokens us :=
  List.flatMap_append

@[simp] theorem charTokens_nil : charTokens [] = [] := rfl

@[simp] theorem charTokens_cons (c : Char) (t : Text) :
    charTokens (c :: t) = .char c :: charTokens t := rfl

@[simp] theorem charTokens_append (s t : Text) : charTokens (s ++ t) = charTokens s ++ charTokens t :=
  List.map_append

@[simp] theorem joinTokens_charTokens (t : Text) : joinTokens (charTokens t) = t := by
  induction t with
  | nil => rfl
  | cons c t ih =>
    rw [charTokens_cons, joinTokens_cons, ih]
    rfl

/-! ## The next marker -/

theorem next?_eq_some_iff {t gap inner after : Text} :
    next? t = some (gap, inner, after) ↔
      Text.FreeOf opening gap ∧ Text.FreeOf closing inner ∧ t = gap ++ enclose inner ++ after := by
  constructor
  · intro h
    have he := eq_append_of_next? h
    unfold next? at h
    cases h₁ : Text.cutFirst? opening t with
    | none => simp [h₁] at h
    | some p =>
      cases h₂ : Text.cutFirst? closing p.2 with
      | none => simp [h₁, h₂] at h
      | some q =>
        simp [h₁, h₂] at h
        obtain ⟨rfl, rfl, rfl⟩ := h
        exact ⟨Text.freeOf_of_cutFirst? h₁, Text.freeOf_of_cutFirst? h₂, he⟩
  · rintro ⟨hg, hi, rfl⟩
    have h₁ : Text.cutFirst? opening (gap ++ enclose inner ++ after) =
        some (gap, inner ++ closing ++ after) := by
      have := hg.cutFirst? (inner ++ closing ++ after)
      simpa [enclose] using this
    unfold next?
    rw [h₁]
    simp only [Option.bind_eq_bind, Option.bind_some]
    rw [hi.cutFirst? after]
    rfl

theorem next?_cons {c : Char} {t : Text} (h : Text.dropStart? opening (c :: t) = none) :
    next? (c :: t) = (next? t).map fun (gap, inner, after) => (c :: gap, inner, after) := by
  unfold next?
  rw [Text.cutFirst?_cons c h]
  cases Text.cutFirst? opening t with
  | none => rfl
  | some p =>
    simp only [Option.map_some, Option.bind_eq_bind, Option.bind_some]
    cases Text.cutFirst? closing p.2 <;> rfl

theorem enclose_inj {inner inner' : Text} (h : enclose inner = enclose inner') : inner = inner' :=
  List.append_cancel_left (List.append_inj' h rfl).1

theorem next?_enclose {inner : Text} (h : Text.FreeOf closing inner) (t : Text) :
    next? (enclose inner ++ t) = some ([], inner, t) :=
  next?_eq_some_iff.2 ⟨by decide, h, rfl⟩

/-! ## The tokens of a text -/

theorem tokens_of_next?_none {t : Text} (h : next? t = none) : tokens t = charTokens t := by
  have : segments t = ([], t) := by
    rw [segments]
    split
    · rfl
    · next h' => simp [h] at h'
  rw [tokens, this]
  rfl

theorem tokens_of_next?_some {t gap inner after : Text} (h : next? t = some (gap, inner, after)) :
    tokens t = charTokens gap ++ .marker inner :: tokens after := by
  have : segments t = ((gap, inner) :: (segments after).1, (segments after).2) := by
    rw [segments]
    split
    · next h' => simp [h] at h'
    · next g i a h' =>
      rw [h] at h'
      simp only [Option.some.injEq, Prod.mk.injEq] at h'
      obtain ⟨rfl, rfl, rfl⟩ := h'
      rfl
  rw [tokens, this]
  simp [segmentTokens, tokens]

@[simp] theorem tokens_nil : tokens [] = [] :=
  tokens_of_next?_none (by decide)

@[simp] theorem joinTokens_tokens (t : Text) : joinTokens (tokens t) = t := by
  fun_induction segments t with
  | case1 t h => rw [tokens_of_next?_none h, joinTokens_charTokens]
  | case2 t gap inner after h rest tail hr ih =>
    rw [tokens_of_next?_some h, joinTokens_append, joinTokens_charTokens, joinTokens_cons, ih,
      eq_append_of_next? h, List.append_assoc]
    rfl

theorem tokens_cons {c : Char} {t : Text} (h : Text.dropStart? opening (c :: t) = none) :
    tokens (c :: t) = .char c :: tokens t := by
  cases hn : next? t with
  | none =>
    rw [tokens_of_next?_none hn, tokens_of_next?_none (by rw [next?_cons h, hn]; rfl)]
    rfl
  | some p =>
    obtain ⟨gap, inner, after⟩ := p
    rw [tokens_of_next?_some hn, tokens_of_next?_some (by rw [next?_cons h, hn]; rfl)]
    rfl

theorem tokens_enclose {inner : Text} (h : Text.FreeOf closing inner) (t : Text) :
    tokens (enclose inner ++ t) = .marker inner :: tokens t :=
  tokens_of_next?_some (next?_enclose h t)

theorem dropStart?_opening_of_ne {c : Char} (h : c ≠ '{') (t : Text) :
    Text.dropStart? opening (c :: t) = none := by
  simp [opening, Text.dropStart?, Ne.symm h]

theorem dropStart?_opening_of_second_ne {c d : Char} (h : d ≠ '{') (t : Text) :
    Text.dropStart? opening (c :: d :: t) = none := by
  simp [opening, Text.dropStart?, Ne.symm h]

/-! ## Sealed lists -/

/-- Each opening brace outside markers is followed by another character, and each marker ends at
its first closing braces. -/
def Sealed : List Token → Prop
  | [] => True
  | .char c :: ts => (c = '{' → ∃ d, d ≠ '{' ∧ ts.head? = some (.char d)) ∧ Sealed ts
  | .marker inner :: ts => Text.FreeOf closing inner ∧ Sealed ts

@[simp] theorem sealed_nil : Sealed [] := trivial

theorem sealed_append {ts us : List Token} (ht : Sealed ts) (hu : Sealed us) : Sealed (ts ++ us) := by
  induction ts with
  | nil => exact hu
  | cons k ts ih =>
    cases k with
    | marker inner => exact ⟨ht.1, ih ht.2⟩
    | char c =>
      refine ⟨fun hc => ?_, ih ht.2⟩
      obtain ⟨d, hd, hh⟩ := ht.1 hc
      refine ⟨d, hd, ?_⟩
      show (ts ++ us).head? = _
      rw [List.head?_append, hh]
      rfl

theorem Sealed.right {ts us : List Token} (h : Sealed (ts ++ us)) : Sealed us := by
  induction ts with
  | nil => exact h
  | cons k ts ih => cases k <;> exact ih h.2

theorem Sealed.left_char {ts us : List Token} {c : Char} (h : Sealed (ts ++ .char c :: us))
    (hc : c ≠ '{') : Sealed (ts ++ [.char c]) := by
  induction ts with
  | nil => exact ⟨fun hb => absurd hb hc, trivial⟩
  | cons k ts ih =>
    cases k with
    | marker inner => exact ⟨h.1, ih h.2⟩
    | char d =>
      refine ⟨fun hd => ?_, ih h.2⟩
      obtain ⟨e, he, hh⟩ := h.1 hd
      refine ⟨e, he, ?_⟩
      cases ts <;> exact hh

/-- A marker can stand only after a sealed list. -/
theorem sealed_append_marker_iff {ts us : List Token} {inner : Text} :
    Sealed (ts ++ .marker inner :: us) ↔ Sealed ts ∧ Text.FreeOf closing inner ∧ Sealed us := by
  constructor
  · intro h
    refine ⟨?_, h.right.1, h.right.2⟩
    induction ts with
    | nil => trivial
    | cons k ts ih =>
      cases k with
      | marker i => exact ⟨h.1, ih h.2⟩
      | char c =>
        refine ⟨fun hc => ?_, ih h.2⟩
        obtain ⟨d, hd, hh⟩ := h.1 hc
        cases ts with
        | nil => simp at hh
        | cons k ts => exact ⟨d, hd, hh⟩
  · rintro ⟨ht, hi, hu⟩
    exact sealed_append ht ⟨hi, hu⟩

/-- **Tokens are local.** What follows a sealed list does not change its tokens. -/
theorem tokens_joinTokens_append {ts : List Token} (h : Sealed ts) (t : Text) :
    tokens (joinTokens ts ++ t) = ts ++ tokens t := by
  induction ts with
  | nil => rfl
  | cons k ts ih =>
    rw [joinTokens_cons, List.append_assoc]
    cases k with
    | marker inner =>
      rw [show Token.text (.marker inner) = enclose inner from rfl, tokens_enclose h.1, ih h.2]
      rfl
    | char c =>
      show tokens (c :: (joinTokens ts ++ t)) = _
      have hd : Text.dropStart? opening (c :: (joinTokens ts ++ t)) = none := by
        by_cases hc : c = '{'
        · obtain ⟨d, hd, hh⟩ := h.1 hc
          obtain ⟨us, rfl⟩ : ∃ us, ts = .char d :: us := by
            cases ts with
            | nil => simp at hh
            | cons k us =>
              rw [List.head?_cons, Option.some.injEq] at hh
              exact ⟨us, by rw [hh]⟩
          exact dropStart?_opening_of_second_ne hd _
        · exact dropStart?_opening_of_ne hc _
      rw [tokens_cons hd, ih h.2]
      rfl

theorem tokens_joinTokens {ts : List Token} (h : Sealed ts) : tokens (joinTokens ts) = ts := by
  simpa using tokens_joinTokens_append h []

theorem sealed_charTokens_of_freeOf {gap : Text} (h : Text.FreeOf opening gap) :
    Sealed (charTokens gap) := by
  induction gap with
  | nil => trivial
  | cons c gap ih =>
    refine ⟨fun hc => ?_, ih h.tail⟩
    have hd := h.dropStart?_eq_none
    cases gap with
    | nil => subst hc; simp [opening, Text.dropStart?] at hd
    | cons d gap =>
      refine ⟨d, fun hd' => ?_, rfl⟩
      subst hc hd'
      simp [opening, Text.dropStart?] at hd

/-- **Every text is sealed but for its end**, in which there is no marker. -/
theorem tokens_splits (t : Text) :
    ∃ ts rest, tokens t = ts ++ charTokens rest ∧ Sealed ts ∧ next? rest = none := by
  fun_induction segments t with
  | case1 t h => exact ⟨[], t, tokens_of_next?_none h, trivial, h⟩
  | case2 t gap inner after h _ _ _ ih =>
    obtain ⟨ts, rest, ht, hs, hr⟩ := ih
    obtain ⟨hg, hi, -⟩ := next?_eq_some_iff.1 h
    refine ⟨charTokens gap ++ .marker inner :: ts, rest, ?_, ?_, hr⟩
    · rw [tokens_of_next?_some h, ht, List.append_assoc]
      rfl
    · exact sealed_append (sealed_charTokens_of_freeOf hg) ⟨hi, hs⟩

/-! ## Properties of the parts between markers -/

/-- A property of lists of tokens that is checked between markers: lists that have it can be put
together, and what stands before a marker, the marker and what follows it each have it by
themselves. -/
structure Divisible (P : List Token → Prop) : Prop where
  nil : P []
  append {ts us : List Token} : P ts → P us → P (ts ++ us)
  left {ts us : List Token} {inner : Text} : P (ts ++ .marker inner :: us) → P ts
  marker {ts us : List Token} {inner : Text} : P (ts ++ .marker inner :: us) → P [.marker inner]
  right {ts us : List Token} : P (ts ++ us) → P us

namespace Divisible

variable {P Q : List Token → Prop} {ts us : List Token} {inner : Text}

theorem after (h : Divisible P) (hp : P (ts ++ .marker inner :: us)) : P us := by
  rw [List.append_cons] at hp
  exact h.right hp

theorem around (h : Divisible P) (ht : P ts) (hm : P [.marker inner]) (hu : P us) :
    P (ts ++ .marker inner :: us) :=
  h.append ht (h.append hm hu)

theorem and (h : Divisible P) (h' : Divisible Q) : Divisible fun ts => P ts ∧ Q ts where
  nil := ⟨h.nil, h'.nil⟩
  append ht hu := ⟨h.append ht.1 hu.1, h'.append ht.2 hu.2⟩
  left hp := ⟨h.left hp.1, h'.left hp.2⟩
  marker hp := ⟨h.marker hp.1, h'.marker hp.2⟩
  right hp := ⟨h.right hp.1, h'.right hp.2⟩

end Divisible

theorem divisible_sealed : Divisible Sealed where
  nil := trivial
  append := sealed_append
  left h := (sealed_append_marker_iff.1 h).1
  marker h := ⟨(sealed_append_marker_iff.1 h).2.1, trivial⟩
  right := Sealed.right

/-- A property of each single token. -/
theorem divisible_forall (p : Token → Prop) : Divisible fun ts => ∀ k ∈ ts, p k where
  nil := by simp
  append ht hu := by
    intro k hk
    rcases List.mem_append.1 hk with hk | hk
    · exact ht k hk
    · exact hu k hk
  left hp := fun k hk => hp k (List.mem_append_left _ hk)
  marker hp := fun k hk => hp k (List.mem_append_right _ (by simp_all))
  right hp := fun k hk => hp k (List.mem_append_right _ hk)

/-! ## Parts of a text between its tokens -/

theorem next?_append_ne_none (a inner b : Text) : next? (a ++ enclose inner ++ b) ≠ none := by
  have he : a ++ enclose inner ++ b = a ++ opening ++ (inner ++ closing ++ b) := by
    simp [enclose]
  rw [he]
  intro h
  unfold next? at h
  cases h₁ : Text.cutFirst? opening (a ++ opening ++ (inner ++ closing ++ b)) with
  | none => exact Text.cutFirst?_append_ne_none _ _ _ h₁
  | some p =>
    obtain ⟨g, r⟩ := p
    -- What follows the first opening braces still holds the closing ones.
    obtain ⟨z, rfl⟩ := Text.prefix_of_cutFirst? h₁
    have hr : z ++ opening ++ (inner ++ closing ++ b) = opening ++ r := by
      have := Text.eq_append_of_cutFirst? h₁
      simpa using this
    obtain ⟨y, rfl⟩ : inner ++ closing ++ b <:+ r := by
      have htail : inner ++ closing ++ b <:+ opening ++ r := ⟨z ++ opening, hr⟩
      refine List.suffix_of_suffix_length_le htail (List.suffix_append opening r) ?_
      have := congrArg List.length hr
      simp only [List.length_append] at this ⊢
      omega
    have hc : Text.cutFirst? closing (y ++ (inner ++ closing ++ b)) ≠ none := by
      have := Text.cutFirst?_append_ne_none closing (y ++ inner) b
      simpa using this
    cases h₂ : Text.cutFirst? closing (y ++ (inner ++ closing ++ b)) with
    | none => exact hc h₂
    | some q =>
      rw [h₁, Option.bind_eq_bind, Option.bind_some] at h
      simp only [h₂] at h
      cases h

theorem next?_eq_none_iff {t : Text} : next? t = none ↔ ∀ a inner b, t ≠ a ++ enclose inner ++ b := by
  constructor
  · rintro h a inner b rfl
    exact next?_append_ne_none a inner b h
  · intro h
    cases hn : next? t with
    | none => rfl
    | some p => exact absurd (eq_append_of_next? hn) (h _ _ _)

theorem next?_none_right {s t : Text} (h : next? (s ++ t) = none) : next? t = none := by
  rw [next?_eq_none_iff] at h ⊢
  rintro a inner b rfl
  exact h (s ++ a) inner b (by simp)

/-- The rest of a text after its first token has the rest of the tokens. -/
theorem tokens_tail {t : Text} {k : Token} {ts : List Token} (h : tokens t = k :: ts) :
    tokens (joinTokens ts) = ts := by
  cases hn : next? t with
  | none =>
    rw [tokens_of_next?_none hn] at h
    cases t with
    | nil => cases h
    | cons c t =>
      obtain ⟨-, rfl⟩ := List.cons.inj h
      rw [show List.map Token.char t = charTokens t from rfl, joinTokens_charTokens]
      exact tokens_of_next?_none (next?_none_right (s := [c]) hn)
  | some p =>
    obtain ⟨gap, inner, after⟩ := p
    rw [tokens_of_next?_some hn] at h
    obtain ⟨hg, hi, -⟩ := next?_eq_some_iff.1 hn
    cases gap with
    | nil =>
      obtain ⟨-, rfl⟩ := List.cons.inj h
      rw [joinTokens_tokens]
    | cons c gap =>
      obtain ⟨-, rfl⟩ := List.cons.inj h
      have he : joinTokens (List.map Token.char gap ++ .marker inner :: tokens after) =
          gap ++ enclose inner ++ after := by
        rw [show List.map Token.char gap = charTokens gap from rfl, joinTokens_append,
          joinTokens_charTokens, joinTokens_cons, joinTokens_tokens, List.append_assoc]
        rfl
      refine (congrArg tokens he).trans ?_
      exact tokens_of_next?_some (next?_eq_some_iff.2 ⟨hg.tail, hi, rfl⟩)

/-- **The end of a text, from the end of a token on, has the rest of the tokens.** -/
theorem tokens_right {t : Text} {ts us : List Token} (h : tokens t = ts ++ us) :
    tokens (joinTokens us) = us := by
  induction ts generalizing t with
  | nil =>
    rw [show us = tokens t from h.symm, joinTokens_tokens]
  | cons k ts ih => exact ih (tokens_tail h)

/-- What stands before a marker of a text is sealed. -/
theorem sealed_left {t : Text} {ts us : List Token} {inner : Text}
    (h : tokens t = ts ++ .marker inner :: us) : Sealed ts ∧ Text.FreeOf closing inner := by
  obtain ⟨ss, rest, ht, hs, -⟩ := tokens_splits t
  rw [h] at ht
  rcases List.append_eq_append_iff.1 ht with ⟨z, rfl, hz⟩ | ⟨z, -, hz⟩
  · cases z with
    | nil =>
      cases rest <;> cases hz
    | cons k z =>
      obtain ⟨rfl, -⟩ := List.cons.inj hz
      obtain ⟨h₁, h₂, -⟩ := sealed_append_marker_iff.1 hs
      exact ⟨h₁, h₂⟩
  · have : Token.marker inner ∈ charTokens rest := by
      rw [hz]
      simp
    obtain ⟨c, -, hc⟩ := List.mem_map.1 this
    cases hc

/-- Characters that are no braces stay by themselves at the end of a text. -/
theorem tokens_append_plain (t : Text) {u : Text} (hu : ∀ c ∈ u, c ≠ '{' ∧ c ≠ '}') :
    tokens (t ++ u) = tokens t ++ charTokens u := by
  fun_induction segments t with
  | case1 t h =>
    have hn : next? (t ++ u) = none := by
      rw [next?_eq_none_iff] at h ⊢
      intro a inner b he
      rcases List.append_eq_append_iff.1 he with ⟨y, hy, hy'⟩ | ⟨y, hy, -⟩
      · rcases List.eq_nil_or_concat y with rfl | ⟨y', c, rfl⟩
        · exact h a inner [] (by simpa using hy.symm)
        · obtain rfl : '}' = c := by
            have := congrArg List.getLast? hy
            simpa [enclose, closing] using this
          exact (hu '}' (by rw [hy']; simp)).2 rfl
      · exact h a inner y hy
    rw [tokens_of_next?_none hn, tokens_of_next?_none h, charTokens_append]
  | case2 t gap inner after h rest tail hr ih =>
    obtain ⟨hg, hi, he⟩ := next?_eq_some_iff.1 h
    have hn : next? (t ++ u) = some (gap, inner, after ++ u) :=
      next?_eq_some_iff.2 ⟨hg, hi, by rw [he]; simp⟩
    rw [tokens_of_next?_some hn, tokens_of_next?_some h, ih, List.append_assoc]
    rfl

/-- Characters that open no braces stay by themselves at the start of a text. -/
theorem tokens_plain_append {t : Text} (ht : ∀ c ∈ t, c ≠ '{') (u : Text) :
    tokens (t ++ u) = charTokens t ++ tokens u := by
  induction t with
  | nil => rfl
  | cons c t ih =>
    rw [List.cons_append,
      tokens_cons (dropStart?_opening_of_ne (ht c List.mem_cons_self) (t ++ u)),
      ih fun d hd => ht d (List.mem_cons_of_mem c hd)]
    rfl

/-- The text between the braces of the marker holds no opening braces, not even together with those
that it stands between. -/
def Simple (inner : Text) : Prop :=
  Text.contains opening ('{' :: inner) = false

instance (inner : Text) : Decidable (Simple inner) :=
  inferInstanceAs (Decidable (_ = _))

/-- Opening braces that begin inside a marker, behind its first brace, stand in what is inside. -/
theorem inner_of_overlap {i inner z y after b : Text} {c : Char} (h : enclose i = c :: z ++ y)
    (hne : y ≠ []) (he : y ++ after = enclose inner ++ b) :
    Text.contains opening ('{' :: i) = true := by
  rw [Text.contains_iff]
  have h' : '{' :: i ++ ['}', '}'] = z ++ y := by
    simp only [enclose, opening, closing, List.cons_append, List.nil_append, List.cons.injEq] at h
    simpa using h.2
  obtain ⟨w, rfl⟩ : ∃ w, y = '{' :: w := by
    cases y with
    | nil => exact absurd rfl hne
    | cons d y =>
      obtain ⟨rfl, -⟩ := List.cons.inj he
      exact ⟨y, rfl⟩
  have hr := congrArg List.reverse h'
  cases w with
  | nil => simp at hr
  | cons e w =>
    obtain ⟨-, he⟩ := List.cons.inj he
    obtain ⟨rfl, -⟩ := List.cons.inj he
    -- The closing braces are behind the opening ones.
    cases hw : w.reverse with
    | nil => simp [hw] at hr
    | cons x w' =>
      cases w' with
      | nil => simp [hw] at hr
      | cons x' w' =>
        rw [List.reverse_eq_iff] at hw
        subst hw
        refine ⟨z, w'.reverse, ?_⟩
        have : '{' :: i ++ ['}', '}'] = z ++ opening ++ w'.reverse ++ [x', x] := by
          rw [h']
          simp [opening]
        exact (List.append_inj' this rfl).1

/-- A marker is a token where it stands, if no marker of the text holds opening braces. -/
theorem tokens_of_occurrence {t a b inner : Text} (hs : ∀ i, .marker i ∈ tokens t → Simple i)
    (hi : Text.FreeOf closing inner) (ht : t = a ++ enclose inner ++ b) :
    ∃ ts us, tokens t = ts ++ .marker inner :: us ∧ joinTokens ts = a ∧ joinTokens us = b := by
  fun_induction segments t generalizing a with
  | case1 t h => exact absurd ht (next?_eq_none_iff.1 h a inner b)
  | case2 t gap i after h rest tail hr ih =>
    have htok := tokens_of_next?_some h
    obtain ⟨hg, hfree, he⟩ := next?_eq_some_iff.1 h
    -- The braces stand at or behind those of the first marker.
    obtain ⟨z, rfl⟩ : gap <+: a := by
      have : Text.cutFirst? opening (a ++ opening ++ (inner ++ closing ++ b)) =
          some (gap, i ++ closing ++ after) := by
        have hc := hg.cutFirst? (i ++ closing ++ after)
        rw [← hc]
        congr 1
        simp only [enclose] at ht he
        rw [he] at ht
        simpa using ht.symm
      exact Text.prefix_of_cutFirst? this
    have hz : enclose i ++ after = z ++ (enclose inner ++ b) := by
      rw [he] at ht
      simpa using ht
    obtain ⟨y, rfl⟩ | ⟨y, hy, hne⟩ : (∃ y, z = enclose i ++ y) ∨ ∃ y, enclose i = z ++ y ∧ y ≠ [] := by
      rcases List.append_eq_append_iff.1 hz with ⟨y, hy, -⟩ | ⟨y, hy, -⟩
      · exact .inl ⟨y, hy⟩
      · cases y with
        | nil => exact .inl ⟨[], by simpa using hy.symm⟩
        | cons d y => exact .inr ⟨d :: y, hy, by simp⟩
    · -- It stands behind the first marker.
      obtain ⟨ts, us, hts, rfl, rfl⟩ := ih (fun j hj => hs j (by rw [htok]; simp [hj]))
        (by simpa using hz)
      refine ⟨charTokens gap ++ .marker i :: ts, us, ?_, ?_, rfl⟩
      · rw [htok, hts]
        simp
      · simp [Token.text]
    · cases z with
      | nil =>
        -- It is the first marker.
        obtain ⟨rfl, rfl⟩ : i = inner ∧ after = b := by
          refine hfree.unique hi ?_
          simpa [enclose, opening] using hz
        exact ⟨charTokens gap, tokens after, htok, by simp, by simp⟩
      | cons c z =>
        -- It would begin inside the first marker, which holds no opening braces.
        exfalso
        have hsimple := hs i (by rw [htok]; simp)
        rw [hy] at hz
        have hin := inner_of_overlap hy hne (by simpa using hz)
        rw [Simple, hin] at hsimple
        cases hsimple

/-! ## Offsets -/

/-- The markers among tokens that start at an offset. -/
def locateTokens (offset : Nat) : List Token → List Marker
  | [] => []
  | .char _ :: ts => locateTokens (offset + 1) ts
  | .marker inner :: ts => ofInner inner offset :: locateTokens (offset + (enclose inner).length) ts

theorem locateTokens_append (offset : Nat) (ts us : List Token) :
    locateTokens offset (ts ++ us) =
      locateTokens offset ts ++ locateTokens (offset + (joinTokens ts).length) us := by
  induction ts generalizing offset with
  | nil => rfl
  | cons k ts ih =>
    rw [joinTokens_cons, List.length_append, ← Nat.add_assoc]
    cases k with
    | char c => exact ih (offset + 1)
    | marker inner =>
      exact congrArg (ofInner inner offset :: ·) (ih (offset + (enclose inner).length))

theorem locateTokens_charTokens (offset : Nat) (t : Text) (ts : List Token) :
    locateTokens offset (charTokens t ++ ts) = locateTokens (offset + t.length) ts := by
  induction t generalizing offset with
  | nil => rfl
  | cons c t ih =>
    show locateTokens (offset + 1) (charTokens t ++ ts) = _
    rw [ih, List.length_cons]
    congr 1
    omega

theorem locate_eq_locateTokens (offset : Nat) (segments : List (Text × Text)) (tail : Text) :
    locate offset segments = locateTokens offset (segmentTokens segments tail) := by
  induction segments generalizing offset with
  | nil => simpa [segmentTokens, locateTokens, locate] using (locateTokens_charTokens offset tail []).symm
  | cons s segments ih =>
    obtain ⟨gap, inner⟩ := s
    have hs : segmentTokens ((gap, inner) :: segments) tail =
        charTokens gap ++ .marker inner :: segmentTokens segments tail := by
      simp [segmentTokens]
    rw [hs, locateTokens_charTokens, locateTokens, locate, ih]
    rfl

/-- The markers of a text are the markers among its tokens. -/
theorem scan_eq_locateTokens (t : Text) : scan t = locateTokens 0 (tokens t) :=
  locate_eq_locateTokens 0 _ _

end MailMerge.Marker
