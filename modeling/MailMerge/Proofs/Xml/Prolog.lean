import MailMerge.Proofs.Xml.Extended

/-!
# What stands before the element of a document

Before its element a document may have a declaration, a document type, comments and instructions. They are
read the same way whatever stands after the start of the element.

**`prolog?_append`**: if a text goes on to the tag of an element, so does every longer one, with the same
document type.

**`parse?_eq`**: a document is read by its prolog, and then by the tokens of its element.
-/

namespace MailMerge.Xml

variable {t after : Text}

/-! ## Marks of declarations -/

theorem head?_append_of_ne_nil (h : t ≠ []) (u : Text) : (t ++ u).head? = t.head? := by
  cases t with
  | nil => exact absurd rfl h
  | cons c t => rfl

theorem goesOn_append {signs : List Char} (h : goesOn signs t) (u : Text) :
    t ≠ [] ∧ goesOn signs (t ++ u) := by
  cases t with
  | nil => cases h
  | cons c t => exact ⟨List.cons_ne_nil c t, h⟩

theorem takeSign_append (h : t ≠ []) (u : Text) :
    takeSign (t ++ u) = ((takeSign t).1, (takeSign t).2 ++ u) := by
  cases t with
  | nil => exact absurd rfl h
  | cons c t =>
    simp only [List.cons_append, takeSign]
    split
    · rfl
    · rfl

/-- What follows the sign is there: the sign itself or a character that goes on. -/
theorem ne_nil_of_takeSign {sign : Option Char} {signs : List Char}
    (h : takeSign t = (sign, after)) (hg : (sign.isSome || goesOn signs after) = true) : t ≠ [] := by
  rintro rfl
  obtain ⟨rfl, rfl⟩ := Prod.mk.inj h
  cases hg

theorem isSome_or_goesOn_append {sign : Option Char} {signs : List Char}
    (h : (sign.isSome || goesOn signs t) = true) (u : Text) :
    (sign.isSome || goesOn signs (t ++ u)) = true := by
  rw [Bool.or_eq_true] at h ⊢
  exact h.imp_right fun hg => (goesOn_append hg u).2

theorem takeWord?_append {m : Mark} (h : takeWord? t = some (m, after)) (u : Text) :
    takeWord? (t ++ u) = some (m, after ++ u) := by
  unfold takeWord? at h
  dsimp only at h
  rcases hs : takeSign (t.dropWhile isQualifiedChar) with ⟨sign, rest⟩
  rw [hs] at h
  dsimp only at h
  have hne : t.dropWhile isQualifiedChar ≠ [] := by
    split at h
    · cases h
    · split at h
      · split at h
        · next hg => exact ne_nil_of_takeSign hs hg
        · cases h
      · split at h
        · next hg =>
          rw [Bool.and_eq_true] at hg
          exact ne_nil_of_takeSign hs (by rw [hg.2, Bool.or_true])
        · cases h
  obtain ⟨htake, hdrop⟩ := takeWhile_append_of_dropWhile isQualifiedChar hne u
  unfold takeWord?
  rw [htake, hdrop, takeSign_append hne u, hs]
  dsimp only
  split at h
  · cases h
  · next hempty =>
    rw [if_neg hempty]
    split at h
    · next hlooks =>
      rw [if_pos hlooks]
      split at h
      · next hg =>
        rw [if_pos (isSome_or_goesOn_append hg u)]
        obtain ⟨rfl, rfl⟩ := Prod.mk.inj (Option.some.inj h)
        rfl
      · cases h
    · next hlooks =>
      rw [if_neg hlooks]
      split at h
      · next hg =>
        rw [Bool.and_eq_true] at hg
        rw [if_pos (by rw [Bool.and_eq_true]; exact ⟨hg.1, (goesOn_append hg.2 u).2⟩)]
        obtain ⟨rfl, rfl⟩ := Prod.mk.inj (Option.some.inj h)
        rfl
      · cases h

theorem takeLiteral?_append {quote : Char} {m : Mark} (h : takeLiteral? quote t = some (m, after))
    (u : Text) : takeLiteral? quote (t ++ u) = some (m, after ++ u) := by
  unfold takeLiteral? at h ⊢
  simp only [Option.bind_eq_bind, Option.bind_eq_some_iff] at h ⊢
  obtain ⟨⟨body, rest⟩, hcut, h⟩ := h
  refine ⟨_, Text.cutFirst?_append_right hcut u, ?_⟩
  split at h
  · next hform =>
    rw [Bool.and_eq_true] at hform
    obtain ⟨rfl, rfl⟩ := Prod.mk.inj (Option.some.inj h)
    rw [if_pos (by rw [Bool.and_eq_true]; exact ⟨hform.1, (goesOn_append hform.2 u).2⟩)]
  · cases h

theorem takeClosing?_append {m : Mark} (h : takeClosing? t = some (m, after)) (u : Text) :
    takeClosing? (t ++ u) = some (m, after ++ u) := by
  unfold takeClosing? at h
  rcases hs : takeSign t with ⟨sign, rest⟩
  rw [hs] at h
  dsimp only at h
  split at h
  · next hg =>
    obtain ⟨rfl, rfl⟩ := Prod.mk.inj (Option.some.inj h)
    unfold takeClosing?
    rw [takeSign_append (ne_nil_of_takeSign hs hg) u, hs]
    dsimp only
    rw [if_pos (isSome_or_goesOn_append hg u)]
  · cases h

theorem takeKeyword?_append {m : Mark} (h : takeKeyword? t = some (m, after)) (u : Text) :
    takeKeyword? (t ++ u) = some (m, after ++ u) := by
  unfold takeKeyword? at h
  dsimp only at h
  split at h
  · next hform =>
    rw [Bool.and_eq_true] at hform
    obtain ⟨hne, hg⟩ := goesOn_append hform.2 u
    obtain ⟨rfl, rfl⟩ := Prod.mk.inj (Option.some.inj h)
    obtain ⟨htake, hdrop⟩ := takeWhile_append_of_dropWhile isNameChar hne u
    unfold takeKeyword?
    rw [htake, hdrop]
    dsimp only
    rw [if_pos (by rw [Bool.and_eq_true]; exact ⟨hform.1, hg⟩)]
  · cases h

theorem mark?_append {m : Mark} (h : mark? t = some (m, after)) (u : Text) :
    mark? (t ++ u) = some (m, after ++ u) := by
  unfold mark? at h
  split at h
  · exact takeLiteral?_append h u
  · exact takeLiteral?_append h u
  · obtain ⟨rfl, rfl⟩ := Prod.mk.inj (Option.some.inj h)
    rfl
  · exact takeClosing?_append h u
  · obtain ⟨rfl, rfl⟩ := Prod.mk.inj (Option.some.inj h)
    rfl
  · obtain ⟨rfl, rfl⟩ := Prod.mk.inj (Option.some.inj h)
    rfl
  · next t =>
    split at h
    · next hg =>
      obtain ⟨rfl, rfl⟩ := Prod.mk.inj (Option.some.inj h)
      show (if goesOn ['%'] (t ++ u) then some (Mark.percent, t ++ u) else none) = _
      rw [if_pos (goesOn_append hg u).2]
    · cases h
  · exact takeKeyword?_append h u
  · next h₁ h₂ h₃ h₄ h₅ h₆ h₇ h₈ =>
    cases t with
    | nil => cases h
    | cons c t =>
      have hw := takeWord?_append h u
      rw [List.cons_append] at hw ⊢
      rw [mark?]
      · exact hw
      all_goals
        intro v hv
        obtain ⟨rfl, -⟩ := List.cons.inj hv
        simp at h₁ h₂ h₃ h₄ h₅ h₆ h₇ h₈

theorem marks?_append {ms : List Mark} {c : Char} (h : marks? t = some (ms, c, after)) (u : Text) :
    marks? (t ++ u) = some (ms, c, after ++ u) := by
  fun_induction marks? t generalizing ms c after with
  | case1 => cases h
  | case2 c' rest hspace ih => rw [List.cons_append, marks?, if_pos hspace, ih h]
  | case3 c' rest hspace hend =>
    simp only [Option.some.injEq, Prod.mk.injEq] at h
    obtain ⟨rfl, rfl, rfl⟩ := h
    rw [List.cons_append, marks?, if_neg hspace, if_pos hend]
  | case4 => cases h
  | case5 c' rest hspace hend m r hm ih =>
    obtain ⟨⟨ns, more⟩, hr, he⟩ := Option.map_eq_some_iff.1 h
    simp only [Prod.mk.injEq] at he
    obtain ⟨rfl, rfl⟩ := he
    have hm := mark?_append hm u
    rw [List.cons_append] at hm ⊢
    rw [marks?, if_neg hspace, if_neg hend]
    split
    · next hm' =>
      rw [hm] at hm'
      cases hm'
    · next hm' =>
      rw [hm] at hm'
      cases hm'
      rw [ih hr]
      rfl

/-! ## Document types -/

namespace Doctype

theorem declaration?_append {kind : Text} {ms : List Mark}
    (h : declaration? t = some (kind, ms, after)) (u : Text) :
    declaration? (t ++ u) = some (kind, ms, after ++ u) := by
  unfold declaration? at h ⊢
  dsimp only at h ⊢
  split at h
  · next hspace =>
    have hne : t.dropWhile Char.isAlpha ≠ [] := fun he => by rw [he] at hspace; cases hspace
    obtain ⟨htake, hdrop⟩ := takeWhile_append_of_dropWhile Char.isAlpha hne u
    obtain ⟨⟨ms', closing, rest⟩, hm, h⟩ := Option.bind_eq_some_iff.1 h
    dsimp only at h
    split at h
    · next hclosing =>
      simp only [Option.some.injEq, Prod.mk.injEq] at h
      obtain ⟨rfl, rfl, rfl⟩ := h
      rw [htake, hdrop, head?_append_of_ne_nil hne, if_pos hspace]
      simp [marks?_append hm u, hclosing]
    · cases h
  · cases h

theorem parameter?_append (h : parameter? t = some after) (u : Text) :
    parameter? (t ++ u) = some (after ++ u) := by
  unfold parameter? at h ⊢
  simp only [Option.bind_eq_bind, Option.bind_eq_some_iff] at h ⊢
  obtain ⟨⟨name, rest⟩, hcut, h⟩ := h
  refine ⟨_, Text.cutFirst?_append_right hcut u, ?_⟩
  split at h
  · next hname =>
    obtain rfl := Option.some.inj h
    rw [if_pos hname]
  · cases h

theorem item?_append {item : Item} (h : item? t = some (item, after)) (u : Text) :
    item? (t ++ u) = some (item, after ++ u) := by
  unfold item? at h
  split at h
  · obtain ⟨r, hr, he⟩ := Option.map_eq_some_iff.1 h
    simp only [Prod.mk.injEq] at he
    obtain ⟨rfl, rfl⟩ := he
    simp [item?, parameter?_append hr u]
  · obtain ⟨r, hr, he⟩ := Option.map_eq_some_iff.1 h
    simp only [Prod.mk.injEq] at he
    obtain ⟨rfl, rfl⟩ := he
    simp [item?, instruction?_append hr u]
  · obtain ⟨r, hr, he⟩ := Option.map_eq_some_iff.1 h
    simp only [Prod.mk.injEq] at he
    obtain ⟨rfl, rfl⟩ := he
    simp [item?, comment?_append hr u]
  · next t hcomment =>
    obtain ⟨⟨kind, ms, r⟩, hr, he⟩ := Option.map_eq_some_iff.1 h
    simp only [Prod.mk.injEq] at he
    obtain ⟨rfl, rfl⟩ := he
    cases t with
    | nil => cases hr
    | cons c t =>
      have hc : c ≠ '-' := by
        rintro rfl
        cases hr
      have hr := declaration?_append hr u
      rw [List.cons_append] at hr
      simp [item?, hr, hc]
  · cases h

theorem items?_of_item? {d e : Doctype} {c : Char} {item : Item} (hspace : ¬ isSpace c) (hc : c ≠ ']')
    (hi : item? (c :: t) = some (item, after)) (hd : d.take item = some e) :
    d.items? (c :: t) = e.items? after := by
  rw [items?, if_neg hspace, if_neg hc]
  split
  · next hi' =>
    rw [hi] at hi'
    cases hi'
  · next hi' =>
    rw [hi] at hi'
    cases hi'
    rw [hd]

/-- Behind the brackets there has to be something, and that no further bracket. -/
theorem items?_append {d e : Doctype} (h : d.items? t = some (e, after)) (hne : after ≠ [])
    (hafter : after.head? ≠ some ']') (u : Text) : d.items? (t ++ u) = some (e, after ++ u) := by
  fun_induction items? d t with
  | case1 => cases h
  | case2 d c rest hspace ih => rw [List.cons_append, items?, if_pos hspace, ih h]
  | case3 => cases h
  | case4 d rest hfree hspace =>
    simp only [Option.some.injEq, Prod.mk.injEq] at h
    obtain ⟨rfl, rfl⟩ := h
    have hstart : Text.startsWith [']', '>'] (rest ++ u) = false := by
      cases rest with
      | nil => exact absurd rfl hne
      | cons c rest =>
        have hc : c ≠ ']' := fun he => hafter (by rw [he]; rfl)
        simp [Text.startsWith, Text.dropStart?, hc.symm]
    rw [List.cons_append, items?, if_neg hspace, if_pos rfl, hstart]
    rfl
  | case5 => cases h
  | case6 => cases h
  | case7 d c rest hspace hc item r hi e' hd ih =>
    have hi := item?_append hi u
    rw [List.cons_append] at hi ⊢
    rw [items?_of_item? hspace hc hi hd, ih h]

theorem read?_append {standsAlone : Bool} {d : Doctype} (h : read? standsAlone t = some (d, after))
    (u : Text) : read? standsAlone (t ++ u) = some (d, after ++ u) := by
  unfold read? at h ⊢
  split at h
  · cases h
  · next hspace =>
    have hne : t ≠ [] := by
      rintro rfl
      exact hspace rfl
    rw [head?_append_of_ne_nil hne, if_neg hspace]
    simp only [Option.bind_eq_bind, Option.bind_eq_some_iff] at h ⊢
    obtain ⟨⟨ms, closing, t₁⟩, hm, d₁, hhead, h⟩ := h
    refine ⟨_, marks?_append hm u, d₁, hhead, ?_⟩
    dsimp only at h ⊢
    split at h
    · next hclosing =>
      obtain ⟨rfl, rfl⟩ := Prod.mk.inj (Option.some.inj h)
      rw [if_pos hclosing]
      rfl
    · next hclosing =>
      rw [if_neg hclosing]
      obtain ⟨⟨d₂, t₂⟩, hitems, h⟩ := Option.bind_eq_some_iff.1 h
      obtain ⟨r, hend, h⟩ := Option.bind_eq_some_iff.1 h
      obtain ⟨rfl, rfl⟩ := Prod.mk.inj (Option.some.inj h)
      dsimp only at hend
      have hskip : skipSpace t₂ ≠ [] := fun he => by rw [he] at hend; cases hend
      have hnil : t₂ ≠ [] := by
        rintro rfl
        exact hskip rfl
      have hbracket : t₂.head? ≠ some ']' := by
        intro hb
        obtain ⟨v, rfl⟩ := List.head?_eq_some_iff.1 hb
        cases hend
      simp [items?_append hitems hnil hbracket u, skipSpace_append hskip u,
        Text.dropStart?_append_right hend u]

end Doctype

/-! ## Comments and instructions -/

/-- The text begins with the tag of an element. -/
def BeginsElement (t : Text) : Prop :=
  ∃ c d u, t = '<' :: c :: d :: u ∧ c ≠ '?' ∧ c ≠ '!'

/-- The text begins with a tag that is no comment and no instruction. -/
def Stops (t : Text) : Prop :=
  ∃ c d u, t = '<' :: c :: d :: u ∧ c ≠ '?' ∧ ¬ (c = '!' ∧ d = '-')

theorem BeginsElement.stops (h : BeginsElement t) : Stops t := by
  obtain ⟨c, d, u, rfl, h₁, h₂⟩ := h
  exact ⟨c, d, u, rfl, h₁, fun he => h₂ he.1⟩

theorem Stops.append (h : Stops t) (u : Text) : Stops (t ++ u) := by
  obtain ⟨c, d, v, rfl, h⟩ := h
  exact ⟨c, d, v ++ u, rfl, h⟩

theorem skipMisc_of_space {c : Char} (hc : isSpace c) (t : Text) : skipMisc (c :: t) = skipMisc t := by
  rw [skipMisc, if_pos hc]

theorem skipMisc_of_item? {c : Char} (hc : ¬ isSpace c)
    (h : Doctype.item? (c :: t) = some (.nothing, after)) : skipMisc (c :: t) = skipMisc after := by
  rw [skipMisc, if_neg hc]
  split
  · next h' =>
    rw [h] at h'
    cases h'
    rfl
  · next h' => exact absurd h (h' _)

/-- Comments and instructions end at any other tag. -/
theorem skipMisc_of_stops (h : Stops t) : skipMisc t = t := by
  obtain ⟨c, d, u, rfl, hc, hd⟩ := h
  rw [skipMisc, if_neg (by decide)]
  split
  · next h' =>
    by_cases hbang : c = '!'
    · have hdash : d ≠ '-' := fun he => hd ⟨hbang, he⟩
      subst hbang
      simp [Doctype.item?, hdash] at h'
    · simp [Doctype.item?, hc, hbang] at h'
  · rfl

theorem skipMisc_skipMisc (t : Text) : skipMisc (skipMisc t) = skipMisc t := by
  fun_induction skipMisc t with
  | case1 => rw [skipMisc]
  | case2 c rest hspace ih => exact ih
  | case3 c rest hspace r h ih => exact ih
  | case4 c rest hspace h =>
    rw [skipMisc, if_neg hspace]
    split
    · next h' => exact absurd h' (h _)
    · rfl

theorem skipMisc_append (h : Stops (skipMisc t)) (u : Text) : skipMisc (t ++ u) = skipMisc t ++ u := by
  fun_induction skipMisc t with
  | case1 =>
    obtain ⟨c, d, v, he, -⟩ := h
    cases he
  | case2 c rest hspace ih => rw [List.cons_append, skipMisc_of_space hspace, ih h]
  | case3 c rest hspace r hi ih =>
    have hi := Doctype.item?_append hi u
    rw [List.cons_append] at hi ⊢
    rw [skipMisc_of_item? hspace hi, ih h]
  | case4 c rest hspace hi => exact skipMisc_of_stops (h.append u)

/-! ## The prolog -/

/-- The document type of a document, and its element with what follows it. -/
def prolog? (t : Text) : Option (Doctype × Text) := do
  let (standsAlone, t) ← declaration? t
  let (d, t) ← doctype? standsAlone (skipMisc t)
  return (d, skipMisc t)

/-- The text of a document as it is read: without a byte order mark, and with newlines only. -/
def normalized (t : Text) : Text :=
  withNewlines ((Text.dropStart? ['\uFEFF'] t).getD t)

/-- A document is read by its prolog, and then by the tokens of its element. -/
theorem parse?_eq (t : Text) : parse? t = (do
    let (d, t) ← prolog? (normalized t)
    let lexed ← lex 0 t
    if lexed.depth = 0 ∧ skipMisc lexed.rest = [] then
      build? [] (← Event.ofTokens? d d.entities lexed.tokens)
    else
      none) := by
  unfold parse? prolog? normalized
  simp only [Option.bind_eq_bind, Option.bind_assoc, Option.pure_def, Option.bind_some]

theorem declaration?_append {standsAlone : Bool} (h : declaration? t = some (standsAlone, after))
    (hne : ∀ n < 6, t ≠ ['<', '?', 'x', 'm', 'l'].take n) (u : Text) :
    declaration? (t ++ u) = some (standsAlone, after ++ u) := by
  unfold declaration? at h
  split at h
  · next hd =>
    obtain ⟨rfl, rfl⟩ := Prod.mk.inj (Option.some.inj h)
    have hd' : Text.dropStart? ['<', '?', 'x', 'm', 'l'] (t ++ u) = none := by
      cases hw : Text.dropStart? ['<', '?', 'x', 'm', 'l'] (t ++ u) with
      | none => rfl
      | some w =>
        have he := Text.eq_append_of_dropStart? hw
        by_cases hlen : t.length < 5
        · refine absurd ?_ (hne t.length (by omega))
          have htake := congrArg (List.take t.length) he
          rwa [List.take_left, List.take_append_of_le_length (Nat.le_of_lt hlen)] at htake
        · rw [Text.dropStart?_append_eq_none hd (Nat.le_of_not_lt hlen) u] at hw
          cases hw
    rw [declaration?, hd']
  · next rest hd =>
    rw [declaration?, Text.dropStart?_append_right hd u]
    dsimp only
    split at h
    · next hhead =>
      have hnil : rest ≠ [] := by
        rintro rfl
        cases hhead
      obtain ⟨⟨body, r⟩, hcut, h⟩ := Option.bind_eq_some_iff.1 h
      rw [head?_append_of_ne_nil hnil, if_pos hhead]
      simp only [Option.bind_eq_bind, Option.bind_eq_some_iff, Option.pure_def, Option.some.injEq,
        Prod.mk.injEq] at h ⊢
      obtain ⟨b, hb, rfl, rfl⟩ := h
      exact ⟨_, Text.cutFirst?_append_right hcut u, _, hb, rfl, rfl⟩
    · next hhead =>
      obtain ⟨rfl, rfl⟩ := Prod.mk.inj (Option.some.inj h)
      rw [if_neg]
      cases rest with
      | nil => exact absurd ((Text.eq_append_of_dropStart? hd).trans (List.append_nil _)) (hne 5 (by decide))
      | cons c rest => exact hhead

theorem doctype?_append {standsAlone : Bool} {d : Doctype} (h : doctype? standsAlone t = some (d, after))
    (hne : BeginsElement (skipMisc after)) (ht : skipMisc t = t) (u : Text) :
    doctype? standsAlone (t ++ u) = some (d, after ++ u) := by
  unfold doctype? at h
  split at h
  · obtain ⟨rfl, rfl⟩ := Prod.mk.inj (Option.some.inj h)
    rw [ht] at hne
    obtain ⟨c, c', v, rfl, -, hc⟩ := hne
    simp [doctype?, Text.dropStart?, hc.symm]
  · next hd =>
    rw [doctype?, Text.dropStart?_append_right hd u]
    exact Doctype.read?_append h u

/-- **If a text goes on to the tag of an element, so does every longer one, with the same document
type.** -/
theorem prolog?_append {d : Doctype} (h : prolog? t = some (d, after)) (he : BeginsElement after) (u : Text) :
    prolog? (t ++ u) = some (d, after ++ u) := by
  have hstart : ∀ n < 6, (prolog? (['<', '?', 'x', 'm', 'l'].take n)).map Prod.snd =
      some (['<', '?', 'x', 'm', 'l'].take n) := by
    decide +kernel
  have hne : ∀ n < 6, t ≠ ['<', '?', 'x', 'm', 'l'].take n := by
    rintro n hn rfl
    have hafter := hstart n hn
    rw [h] at hafter
    obtain ⟨c, c', v, hv, hc, -⟩ := he
    replace hv := (Option.some.inj hafter).symm.trans hv
    rcases n with _ | _ | n
    · cases hv
    · cases hv
    · exact hc (List.cons.inj (List.cons.inj hv).2).1.symm
  unfold prolog? at h ⊢
  simp only [Option.bind_eq_bind, Option.bind_eq_some_iff, Option.pure_def, Option.some.injEq,
    Prod.mk.injEq] at h ⊢
  obtain ⟨⟨standsAlone, t₁⟩, hdecl, ⟨d', t₂⟩, hdoctype, rfl, rfl⟩ := h
  dsimp only at hdoctype he
  have hstops : Stops (skipMisc t₁) := by
    unfold doctype? at hdoctype
    split at hdoctype
    · obtain ⟨rfl, rfl⟩ := Prod.mk.inj (Option.some.inj hdoctype)
      rw [skipMisc_skipMisc] at he
      exact he.stops
    · next v hd =>
      exact ⟨'!', 'D', _, Text.eq_append_of_dropStart? hd, by decide, fun he => absurd he.2 (by decide)⟩
  refine ⟨_, declaration?_append hdecl hne u, (d', t₂ ++ u), ?_, rfl, skipMisc_append he.stops u⟩
  dsimp only
  rw [skipMisc_append hstops u]
  exact doctype?_append hdoctype he (skipMisc_skipMisc t₁) u

end MailMerge.Xml
