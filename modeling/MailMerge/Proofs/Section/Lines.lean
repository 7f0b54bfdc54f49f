import MailMerge.Proofs.Section.Traced
import MailMerge.Proofs.Section.Reference
import MailMerge.Proofs.Section.WholeLines
import MailMerge.Proofs.Tree.Writing

/-!
# Sections on lines of their own

A text of whole lines is rendered line by line. A line becomes the line with its fields filled in, and a
section becomes the lines of its body, once for each record that it is bound to; the lines of its markers
are gone.

One newline is left out at a wrong place: a section with nothing behind it, or with nothing but a newline
behind it, lacks the newline of its last line. Inside a section every section that comes last is followed
by a newline and no more text, so that the lines of two records meet in one line.

**`render_lines`**: where no newline is left out that way, the lines of a rendered text are its rendered
lines.
-/

namespace MailMerge.Section

open Marker (Token tokens joinTokens ofInner classify)
open Item (AllSound linesOf textOf)
open Merging (Gives gives_bind_iff gives_map_iff gives_pure_iff gives_mapM_iff forall₂_append_left)

variable {settings : Settings} {c : Context} {nested : Bool} {is : List Item} {ls : List Text} {u : Text}

/-! ## The lines that are expected -/

/-- The lines of items: those of a line with its fields filled in, and those of a section's body for each
record. -/
def renderLines (settings : Settings) (c : Context) (nested : Bool) :
    List Item → Merging ImageRequest (List Text)
  | [] => pure []
  | .line t :: is => do
    let l ← Field.substitute settings c true t
    let ls ← renderLines settings c nested is
    return l :: ls
  | .repeated o _ body :: is => do
    let records ← Section.records settings (ofInner o 0) c nested
    let sets ← records.zipIdx.mapM fun (record, k) => renderLines settings (c.forRow record k) true body
    let ls ← renderLines settings c nested is
    return sets.flatten ++ ls

/-- Fields in the items are filled in, for whatever records, without newlines and without the character
that placeholders begin with. -/
def FlatValues (settings : Settings) (c : Context) (nested : Bool) : List Item → Prop
  | [] => True
  | .line t :: is =>
    (∀ i ∈ inners t, ∀ x, (Field.replace settings c true i).Gives x →
      '\n' ∉ x ∧ Span.placeholderStart ∉ x) ∧ FlatValues settings c nested is
  | .repeated o _ body :: is =>
    (∀ records, (Section.records settings (ofInner o 0) c nested : Merging ImageRequest _).Gives records →
      ∀ r ∈ records.zipIdx, FlatValues settings (c.forRow r.1 r.2) true body) ∧
      FlatValues settings c nested is

/-- There is a line among the items, or in a section of theirs. -/
def HasLine : List Item → Prop
  | [] => False
  | .line _ :: _ => True
  | .repeated _ _ body :: is => HasLine body ∨ HasLine is

/-- No section's body ends, at any depth, with a section in which there is a line. -/
def Separate : List Item → Prop
  | [] => True
  | .line _ :: is => Separate is
  | .repeated _ _ body :: is =>
    (∀ before o k last, body = before ++ [.repeated o k last] → ¬ HasLine last) ∧ Separate body ∧ Separate is

/-- The text does not end, behind a line, with a section without a line, and not with a section with a line
and an empty line behind it. -/
structure EndsWell (is : List Item) : Prop where
  section_last : ∀ before o k body, is = before ++ [.repeated o k body] → HasLine before → HasLine body
  empty_last : ∀ before o k body, is = before ++ [.repeated o k body, .line []] → ¬ HasLine body

/-- The items are sound, no marker in their text goes over a line, and nothing reads as a placeholder. -/
structure Legible (is : List Item) : Prop where
  sound : AllSound is
  unbroken : Unbroken (textOf is)
  noPlaceholder : Span.placeholderStart ∉ textOf is

/-! ## Parts of legible items -/

theorem mem_textOf_cons {i : Item} {ch : Char} (h : ch ∈ textOf is) : ch ∈ textOf (i :: is) := by
  by_cases hne : is = []
  · rw [hne] at h
    cases h
  · rw [Item.textOf_cons hne]
    exact List.mem_append_right _ (List.mem_cons_of_mem _ h)

theorem unbroken_nil : Unbroken [] := by
  intro i hi
  rw [inners, Marker.tokens_nil] at hi
  cases hi

theorem Unbroken.append_newline {y : Text} (h : Unbroken y) : Unbroken (y ++ ['\n']) := by
  intro i hi
  rw [inners, Marker.tokens_append_plain y (by decide), List.filterMap_append] at hi
  exact (List.mem_append.1 hi).elim (h i) fun hi => by cases hi

theorem Legible.tail {i : Item} (h : Legible (i :: is)) : Legible is where
  sound := h.sound.2
  unbroken := by
    by_cases hne : is = []
    · rw [hne]
      exact unbroken_nil
    · exact (Item.textOf_cons (i := i) hne ▸ h.unbroken).of_newline.2
  noPlaceholder hp := h.noPlaceholder (mem_textOf_cons hp)

theorem Legible.head {i : Item} (h : Legible (i :: is)) : Legible [i] where
  sound := ⟨h.sound.1, trivial⟩
  unbroken := by
    by_cases hne : is = []
    · exact hne ▸ h.unbroken
    · rw [Item.textOf_singleton]
      exact (Item.textOf_cons (i := i) hne ▸ h.unbroken).of_newline.1
  noPlaceholder hp := h.noPlaceholder (by
    by_cases hne : is = []
    · exact hne ▸ hp
    · rw [Item.textOf_cons hne, ← Item.textOf_singleton]
      exact List.mem_append_left _ hp)

theorem Legible.of_mem {i : Item} (h : Legible is) (hmem : i ∈ is) : Legible [i] := by
  induction is with
  | nil => cases hmem
  | cons j is ih =>
    rcases List.mem_cons.1 hmem with rfl | hmem
    · exact h.head
    · exact ih h.tail hmem

theorem allSound_append {js : List Item} (h : AllSound is) (h' : AllSound js) : AllSound (is ++ js) := by
  induction is with
  | nil => exact h'
  | cons i is ih => exact ⟨h.1, ih h.2⟩

/-- The body of a section is legible. -/
theorem Legible.body {o k : Text} {body : List Item} (h : Legible (.repeated o k body :: is)) :
    Legible (body ++ [.line []]) := by
  have htext : textOf [.repeated o k body] =
      Marker.enclose o ++ '\n' :: (textOf (body ++ [.line []]) ++ Marker.enclose k) := by
    rw [Item.textOf_singleton, Item.lines, Item.textOf_append_nil, Text.unlines,
      show Marker.enclose o :: (linesOf body ++ [Marker.enclose k]) =
        [Marker.enclose o] ++ (linesOf body ++ [Marker.enclose k]) from rfl,
      Text.join_append (by simp) (by simp), Text.join_append_cons]
    simp [Text.join]
  have hhead := h.head
  refine ⟨allSound_append hhead.sound.1.2.2 ⟨⟨by simp, ?_⟩, trivial⟩, ?_, fun hp => hhead.noPlaceholder ?_⟩
  · intro i hi
    rw [inners, Marker.tokens_nil] at hi
    cases hi
  · have hone := hhead.unbroken
    rw [htext] at hone
    replace hone := hone.of_newline.2
    rw [Item.textOf_append_nil] at hone ⊢
    rcases List.eq_nil_or_concat (linesOf body) with hnil | ⟨ls, l, hconcat⟩
    · rw [hnil]
      exact unbroken_nil
    · rw [hconcat, List.concat_eq_append] at hone ⊢
      have hlast : (ls ++ [l]).flatMap (· ++ ['\n']) = ls.flatMap (· ++ ['\n']) ++ l ++ ['\n'] := by
        simp
      rw [hlast] at hone ⊢
      refine Unbroken.append_newline (Unbroken.of_newline (b := Marker.enclose k) ?_).1
      simpa using hone
  · rw [htext]
    exact List.mem_append_right _ (List.mem_cons_of_mem _ (List.mem_append_left _ hp))

/-! ## What the symbols make -/

theorem remaining_of_plain {fields : Condition.Fields} {t : Text} (h : ∀ x ∈ symbols t, x.role = .plain) :
    remaining fields t = symbols t := by
  have hpair := Nesting.pairUp_append_plain [] h
  rw [List.nil_append] at hpair
  rw [remaining, symbolPieces, hpair]
  exact Nesting.keep_map_item (symbols t)

/-- The symbol is rendered as the text. -/
def Symbol.Makes (settings : Settings) (c : Context) (nested : Bool) (x : Symbol) (u : Text) : Prop :=
  ∃ f, (fillSymbol settings c x).Gives f ∧ (putNumbered settings c nested f).Gives u

theorem eq_of_makes_char {ch : Char} (h : Symbol.Makes settings c nested (.token (.char ch)) u) : u = [ch] := by
  obtain ⟨f, hf, hu⟩ := h
  obtain rfl := gives_pure_iff.1 hf
  exact (gives_pure_iff.1 hu).symm

theorem gives_replace_of_makes {i : Text} (h : Symbol.Makes settings c nested (.token (.marker i)) u) :
    (Field.replace settings c true i).Gives u := by
  obtain ⟨f, hf, hu⟩ := h
  obtain ⟨x, hx, hf⟩ := gives_bind_iff.1 hf
  obtain rfl := gives_pure_iff.1 hf
  obtain rfl := gives_pure_iff.1 hu
  exact hx

theorem gives_renderSpan_of_makes {s : Span} {index : Nat} (h : Symbol.Makes settings c nested (.span s index) u) :
    (renderSpan settings c nested s).Gives u := by
  obtain ⟨f, hf, hu⟩ := h
  obtain rfl := gives_pure_iff.1 hf
  obtain ⟨-, -, hu⟩ := gives_bind_iff.1 hu
  exact hu

theorem forall₂_comp {α β γ : Type} {R : α → β → Prop} {S : β → γ → Prop} {xs : List α} {ys : List β}
    {zs : List γ} (h : List.Forall₂ R xs ys) (h' : List.Forall₂ S ys zs) :
    List.Forall₂ (fun x z => ∃ y, R x y ∧ S y z) xs zs := by
  induction h generalizing zs with
  | nil =>
    cases h'
    exact .nil
  | cons hr _ ih =>
    cases h' with
    | cons hs hrest => exact .cons ⟨_, hr, hs⟩ (ih hrest)

/-- A text without conditionals is rendered symbol by symbol. -/
theorem exists_makes {t : Text} (ht : Span.placeholderStart ∉ t) (hv : NoPlaceholderIn settings c t)
    (hplain : ∀ x ∈ symbols t, x.role = .plain) (h : (render settings c nested t).Gives u) :
    ∃ us, List.Forall₂ (Symbol.Makes settings c nested) (symbols t) us ∧ u = us.flatten := by
  obtain ⟨x, hx⟩ := render_eq_numbered nested ht hv
  rw [hx, remaining_of_plain hplain] at h
  obtain ⟨-, -, h⟩ := gives_bind_iff.1 h
  obtain ⟨ws, -, h⟩ := gives_bind_iff.1 h
  split at h
  · obtain ⟨-, -, h⟩ := gives_bind_iff.1 h
    obtain ⟨fs, hfs, h⟩ := gives_bind_iff.1 h
    obtain ⟨us, hus, rfl⟩ := gives_map_iff.1 h
    rw [gives_mapM_iff] at hfs hus
    exact ⟨us, forall₂_comp hfs hus, rfl⟩
  · exact absurd h (Merging.not_gives_fail _ _)

/-- The tokens of a line make the line with its fields filled in. -/
theorem gives_substitute_of_makes {l : Text} {us : List Text}
    (h : List.Forall₂ (Symbol.Makes settings c nested) ((tokens l).map .token) us) :
    (Field.substitute settings c true l).Gives us.flatten := by
  rw [substitute_eq]
  generalize tokens l = ts at h
  induction ts generalizing us with
  | nil =>
    cases h
    exact gives_pure_iff.2 rfl
  | cons k ts ih =>
    obtain ⟨u, us', hu, hus, rfl⟩ := List.forall₂_cons_left_iff.1 h
    have hrest := ih hus
    cases k with
    | char ch =>
      obtain rfl := eq_of_makes_char hu
      exact gives_bind_iff.2 ⟨_, hrest, gives_pure_iff.2 rfl⟩
    | marker i =>
      exact gives_bind_iff.2 ⟨u, gives_replace_of_makes hu, gives_bind_iff.2 ⟨_, hrest, gives_pure_iff.2 rfl⟩⟩

/-! ## Symbols of legible items -/

/-- A symbol of items is a character, a field of one of their lines, or a section. -/
theorem cases_of_isSymbols {xs : List Symbol} (h : IsSymbols is xs) {x : Symbol} (hx : x ∈ xs) :
    (∃ ch, x = .token (.char ch)) ∨ (∃ l ∈ is, ∃ t, l = .line t ∧ ∃ i ∈ inners t, x = .token (.marker i)) ∨
      ∃ s index, x = .span s index := by
  induction is generalizing xs with
  | nil =>
    rw [show xs = [] from h] at hx
    cases hx
  | cons item is ih =>
    have hrest : ∀ {ys}, IsSymbols is ys → x ∈ ys → (∃ ch, x = .token (.char ch)) ∨
        (∃ l ∈ item :: is, ∃ t, l = .line t ∧ ∃ i ∈ inners t, x = .token (.marker i)) ∨
          ∃ s index, x = .span s index := by
      intro ys hys hxs
      rcases ih hys hxs with hch | ⟨l, hl, t⟩ | hspan
      · exact .inl hch
      · exact .inr (.inl ⟨l, List.mem_cons_of_mem item hl, t⟩)
      · exact .inr (.inr hspan)
    cases item with
    | line t =>
      obtain ⟨ys, hys, rfl⟩ := h
      rcases List.mem_append.1 hx with hx | hx
      · rcases List.mem_append.1 hx with hx | hx
        · obtain ⟨k, hk, rfl⟩ := List.mem_map.1 hx
          cases k with
          | char ch => exact .inl ⟨ch, rfl⟩
          | marker i =>
            exact .inr (.inl ⟨_, List.mem_cons_self, t, rfl, i, List.mem_filterMap.2 ⟨_, hk, rfl⟩, rfl⟩)
        · split at hx
          · cases hx
          · exact .inl ⟨_, List.mem_singleton.1 hx⟩
      · exact hrest hys hx
    | repeated o k body =>
      obtain ⟨s, index, ys, hys, rfl, -⟩ := h
      rcases List.mem_cons.1 hx with rfl | hx
      · exact .inr (.inr ⟨s, index, rfl⟩)
      · exact hrest hys hx

theorem role_of_isSymbols {xs : List Symbol} (hsound : AllSound is) (h : IsSymbols is xs) :
    ∀ x ∈ xs, x.role = .plain := by
  intro x hx
  rcases cases_of_isSymbols h hx with ⟨ch, rfl⟩ | ⟨l, hl, t, rfl, i, hi, rfl⟩ | ⟨s, index, rfl⟩
  · rfl
  · have hfield : (classify i).kind = .field := by
      clear h hx
      induction is with
      | nil => cases hl
      | cons item is ih =>
        rcases List.mem_cons.1 hl with rfl | hl
        · exact hsound.1.2 i hi
        · exact ih hsound.2 hl
    show Conditional.kindRole (classify i).kind = .plain
    rw [hfield]
    rfl
  · rfl

theorem flat_of_mem {t : Text} (hflat : FlatValues settings c nested is) (h : .line t ∈ is) {i : Text}
    (hi : i ∈ inners t) {x : Text} (hx : (Field.replace settings c true i).Gives x) :
    '\n' ∉ x ∧ Span.placeholderStart ∉ x := by
  induction is with
  | nil => cases h
  | cons item is ih =>
    rcases List.mem_cons.1 h with rfl | htail
    · rw [FlatValues] at hflat
      exact hflat.1 i hi x hx
    · cases item with
      | line t' =>
        rw [FlatValues] at hflat
        exact ih hflat.2 htail
      | repeated o k body =>
        rw [FlatValues] at hflat
        exact ih hflat.2 htail

/-- A text of whole lines is rendered by the symbols of its items. -/
theorem Legible.exists_makes (h : Legible is) (hflat : FlatValues settings c nested is)
    (hg : (render settings c nested (textOf is)).Gives u) :
    ∃ xs us, IsSymbols is xs ∧ List.Forall₂ (Symbol.Makes settings c nested) xs us ∧ u = us.flatten := by
  have hsymbols := isSymbols_symbols h.sound h.unbroken
  have hplain := role_of_isSymbols h.sound hsymbols
  have hvalues : NoPlaceholderIn settings c (textOf is) := by
    intro i hi _ x hx
    rw [remaining_of_plain hplain] at hi
    rcases cases_of_isSymbols hsymbols hi with ⟨ch, he⟩ | ⟨l, hl, t, rfl, j, hj, he⟩ | ⟨s, index, he⟩
    · cases he
    · cases he
      exact (flat_of_mem hflat hl hj hx).2
    · cases he
  obtain ⟨us, hus, rfl⟩ := Section.exists_makes h.noPlaceholder hvalues hplain hg
  exact ⟨_, us, hsymbols, hus, rfl⟩

/-! ## Lines with a newline each -/

/-- The lines with a newline behind each. -/
def terminated (ls : List Text) : Text :=
  ls.flatMap (· ++ ['\n'])

theorem terminated_append (ls ls' : List Text) : terminated (ls ++ ls') = terminated ls ++ terminated ls' :=
  List.flatMap_append

theorem unlines_append_terminated (ls : List Text) {ls' : List Text} (h : ls' ≠ []) :
    Text.unlines (ls ++ ls') = terminated ls ++ Text.unlines ls' := by
  obtain ⟨l, ls', rfl⟩ := List.exists_cons_of_ne_nil h
  have hcons := Text.join_append_cons ['\n'] [] l ls'
  rw [List.nil_append, List.flatMap_nil, List.nil_append] at hcons
  rw [Text.unlines, Text.unlines, Text.join_append_cons, hcons, terminated]
  simp only [List.append_assoc]

theorem terminated_eq {ls : List Text} (h : ls ≠ []) : terminated ls = Text.unlines ls ++ ['\n'] := by
  have : Text.unlines (ls ++ [[]]) = terminated ls ++ Text.unlines [[]] :=
    unlines_append_terminated ls (by simp)
  rw [Text.unlines_append h (by simp)] at this
  simpa [Text.unlines, Text.join] using this.symm

/-- A section at the end of a text has no newline too many. -/
theorem trimmed_terminated {s : Span} (h : s.trimNewline) (ls : List Text) :
    s.trimmed (terminated ls) = Text.unlines ls := by
  by_cases hne : ls = []
  · subst hne
    rw [Span.trimmed, if_neg (by simp [terminated])]
    rfl
  · rw [terminated_eq hne, Span.trimmed, if_pos ⟨h, by simp⟩, List.dropLast_concat]

/-! ## Lines and sections without lines -/

theorem hasLine_append {js : List Item} : HasLine (is ++ js) ↔ HasLine is ∨ HasLine js := by
  induction is with
  | nil => simp [HasLine]
  | cons i is ih => cases i <;> simp [HasLine, ih, or_assoc]

theorem hasLine_cons {i : Item} : HasLine (i :: is) ↔ HasLine [i] ∨ HasLine is :=
  @hasLine_append [i] is

theorem EndsWell.tail {i : Item} (h : EndsWell (i :: is)) : EndsWell is where
  section_last before o k body he hline :=
    h.section_last (i :: before) o k body (by rw [he, List.cons_append])
      (hasLine_cons.2 (.inr hline))
  empty_last before o k body he := h.empty_last (i :: before) o k body (by rw [he, List.cons_append])

/-- Behind a line there is another one, if anything. -/
theorem EndsWell.hasLine {i : Item} (h : EndsWell (i :: is)) (hi : HasLine [i]) (hne : is ≠ []) :
    HasLine is := by
  obtain ⟨before, last, rfl⟩ := (List.eq_nil_or_concat is).resolve_left hne
  rw [List.concat_eq_append] at h ⊢
  refine hasLine_append.2 (.inr ?_)
  cases last with
  | line t => simp [HasLine]
  | repeated o k body =>
    rw [HasLine]
    exact .inl (h.section_last (i :: before) o k body rfl (hasLine_cons.2 (.inl hi)))

/-- The body of a section, with the newline of its last line, ends well. -/
theorem endsWell_body {body : List Item}
    (h : ∀ before o k last, body = before ++ [.repeated o k last] → ¬ HasLine last) :
    EndsWell (body ++ [.line []]) where
  section_last before o k last he := by
    have := congrArg List.getLast? he
    simp at this
  empty_last before o k last he := by
    have hcancel : body ++ [.line []] = before ++ [.repeated o k last] ++ [.line []] :=
      he.trans (by simp)
    exact h before o k last (List.append_cancel_right hcancel)

theorem FlatValues.append_nil (h : FlatValues settings c nested is) :
    FlatValues settings c nested (is ++ [.line []]) := by
  induction is with
  | nil =>
    rw [List.nil_append, FlatValues, FlatValues, inners, Marker.tokens_nil]
    exact ⟨by simp, trivial⟩
  | cons i is ih =>
    cases i with
    | line t =>
      rw [FlatValues] at h
      rw [List.cons_append, FlatValues]
      exact ⟨h.1, ih h.2⟩
    | repeated o k body =>
      rw [FlatValues] at h
      rw [List.cons_append, FlatValues]
      exact ⟨h.1, ih h.2⟩

theorem renderLines_append (is js : List Item) :
    renderLines settings c nested (is ++ js) = do
      let ls ← renderLines settings c nested is
      let ls' ← renderLines settings c nested js
      return ls ++ ls' := by
  induction is with
  | nil => simp [renderLines]
  | cons i is ih =>
    cases i <;> simp only [renderLines, ih, bind_assoc, pure_bind, List.append_assoc, List.cons_append]

theorem gives_renderLines_append {js : List Item} :
    (renderLines settings c nested (is ++ js)).Gives ls ↔ ∃ as bs, (renderLines settings c nested is).Gives as ∧
      (renderLines settings c nested js).Gives bs ∧ as ++ bs = ls := by
  simp only [renderLines_append, gives_bind_iff, gives_pure_iff]
  tauto

theorem gives_renderLines_nil (h : (renderLines settings c nested [.line []]).Gives ls) : ls = [[]] := by
  rw [renderLines, renderLines, substitute_eq, Marker.tokens_nil] at h
  obtain ⟨l, hl, h⟩ := gives_bind_iff.1 h
  obtain ⟨ls', hls, h⟩ := gives_bind_iff.1 h
  rw [← gives_pure_iff.1 h, ← gives_pure_iff.1 hls, ← gives_pure_iff.1 hl]

/-! ## The records of a section -/

theorem records_congr {ι : Type} {m m' : Marker} (h : m.toSense = m'.toSense) :
    (Section.records settings m c nested : Merging ι (List Value)) = Section.records settings m' c nested := by
  cases m
  cases m'
  cases h
  rfl

/-- A section is bound to one record at least. -/
theorem records_ne_nil {ι : Type} {m : Marker} {records : List Value}
    (h : (Section.records settings m c nested : Merging ι (List Value)).Gives records) : records ≠ [] := by
  obtain ⟨found, hfound, h⟩ := gives_bind_iff.1 h
  have hrecords : found = records := by
    dsimp only at h
    split at h
    · obtain ⟨-, -, h⟩ := gives_bind_iff.1 h
      exact gives_pure_iff.1 h
    · exact gives_pure_iff.1 h
  obtain ⟨vs, -, hfound⟩ := gives_bind_iff.1 hfound
  split at hfound
  · next items hitems =>
    obtain rfl := gives_pure_iff.1 hfound
    obtain ⟨v, -, hv⟩ := List.exists_of_findSome?_eq_some hitems
    exact hrecords ▸ (records?_eq_some_iff.1 hv).2
  · exact absurd hfound (Merging.not_gives_fail _ _)

/-- Lines come from lines alone. -/
theorem renderLines_ne_nil_iff {is : List Item} {ls : List Text} {c : Context} {nested : Bool}
    (h : (renderLines settings c nested is).Gives ls) : ls ≠ [] ↔ HasLine is := by
  match is, h with
  | [], h =>
    rw [renderLines] at h
    rw [← gives_pure_iff.1 h]
    simp [HasLine]
  | .line t :: is, h =>
    rw [renderLines] at h
    obtain ⟨l, -, h⟩ := gives_bind_iff.1 h
    obtain ⟨ls, -, h⟩ := gives_bind_iff.1 h
    rw [← gives_pure_iff.1 h]
    simp [HasLine]
  | .repeated o k body :: is, h =>
    rw [renderLines] at h
    obtain ⟨records, hrecords, h⟩ := gives_bind_iff.1 h
    obtain ⟨sets, hsets, h⟩ := gives_bind_iff.1 h
    obtain ⟨ls, hls, h⟩ := gives_bind_iff.1 h
    have hset : ∀ set ∈ sets, (set ≠ [] ↔ HasLine body) := by
      intro set hset
      obtain ⟨r, -, hr⟩ := Merging.exists_of_forall₂ (gives_mapM_iff.1 hsets).flip hset
      exact renderLines_ne_nil_iff hr
    -- There is a record, so that the body is rendered at least once.
    obtain ⟨r, rs, hr⟩ := List.exists_cons_of_ne_nil (records_ne_nil hrecords)
    rw [hr, List.zipIdx_cons, gives_mapM_iff] at hsets
    obtain ⟨set, sets', -, -, rfl⟩ := List.forall₂_cons_left_iff.1 hsets
    have hflatten : (set :: sets').flatten ≠ [] ↔ HasLine body := by
      constructor
      · intro hne
        obtain ⟨l, hl⟩ := List.exists_mem_of_ne_nil _ hne
        obtain ⟨other, hother, hl⟩ := List.mem_flatten.1 hl
        exact (hset other hother).1 (List.ne_nil_of_mem hl)
      · intro hline hnil
        exact (hset set List.mem_cons_self).2 hline (List.append_eq_nil_iff.1 hnil).1
    rw [← gives_pure_iff.1 h, HasLine, ← hflatten, ← renderLines_ne_nil_iff hls, ne_eq,
      List.append_eq_nil_iff, not_and_or]

/-! ## Rendering -/

/-- The body of a section is rendered to its lines, each with a newline. -/
def BodyRenders (settings : Settings) (body : List Item) : Prop :=
  ∀ c u, FlatValues settings c true body →
    (render settings c true (textOf (body ++ [.line []]))).Gives u →
    ∃ ls, (renderLines settings c true body).Gives ls ∧ u = terminated ls

/-- The lines that the body of a section is rendered to for each record. -/
theorem exists_sets_of_texts {body : List Item} (hbody : BodyRenders settings body) {rs : List (Value × Nat)}
    (hflat : ∀ r ∈ rs, FlatValues settings (c.forRow r.1 r.2) true body) {texts : List Text}
    (h : List.Forall₂ (fun r x => (render settings (c.forRow r.1 r.2) true (textOf (body ++ [.line []]))).Gives x)
      rs texts) :
    ∃ sets, List.Forall₂ (fun r ls => (renderLines settings (c.forRow r.1 r.2) true body).Gives ls) rs sets ∧
      texts.flatten = terminated sets.flatten := by
  induction h with
  | nil => exact ⟨[], .nil, rfl⟩
  | cons hx _ ih =>
    obtain ⟨ls, hls, rfl⟩ := hbody _ _ (hflat _ List.mem_cons_self) hx
    obtain ⟨sets, hsets, htexts⟩ := ih fun r hr => hflat r (List.mem_cons_of_mem _ hr)
    refine ⟨ls :: sets, .cons hls hsets, ?_⟩
    rw [List.flatten_cons, List.flatten_cons, terminated_append, htexts]

/-- The lines that a section is rendered to. -/
theorem exists_renderLines_repeated {o k : Text} {body : List Item} {s : Span} {index : Nat} (hbody : BodyRenders settings body)
    (hflat : ∀ records, (Section.records settings (ofInner o 0) c nested : Merging ImageRequest _).Gives records →
      ∀ r ∈ records.zipIdx, FlatValues settings (c.forRow r.1 r.2) true body)
    (hopener : s.opener.toSense = classify o) (hs : s.body = textOf (body ++ [.line []]))
    (h : Symbol.Makes settings c nested (.span s index) u) :
    ∃ ls, (renderLines settings c nested [.repeated o k body]).Gives ls ∧ u = s.trimmed (terminated ls) := by
  have hspan := gives_renderSpan_of_makes h
  rw [renderSpan_eq] at hspan
  obtain ⟨records, hrecords, hspan⟩ := gives_bind_iff.1 hspan
  obtain ⟨texts, htexts, hspan⟩ := gives_bind_iff.1 hspan
  obtain rfl := gives_pure_iff.1 hspan
  have hsense : s.opener.toSense = (ofInner o 0).toSense := hopener
  rw [records_congr hsense] at hrecords
  rw [gives_mapM_iff, hs] at htexts
  obtain ⟨sets, hsets, htexts⟩ := exists_sets_of_texts hbody (hflat records hrecords) htexts
  refine ⟨sets.flatten, ?_, by rw [htexts]⟩
  rw [renderLines, renderLines]
  refine gives_bind_iff.2 ⟨records, hrecords, gives_bind_iff.2 ⟨sets, gives_mapM_iff.2 hsets,
    gives_bind_iff.2 ⟨[], gives_pure_iff.2 rfl, gives_pure_iff.2 (List.append_nil _)⟩⟩⟩

/-- A line, and the newline behind it if there is one. -/
theorem eq_of_makes_line {t : Text} {us : List Text}
    (h : List.Forall₂ (Symbol.Makes settings c nested)
      ((tokens t).map .token ++ if is = [] then [] else [.token (.char '\n')]) us) :
    ∃ l, (Field.substitute settings c true t).Gives l ∧ us.flatten = l ++ if is = [] then [] else ['\n'] := by
  obtain ⟨as, bs, has, hbs, rfl⟩ := forall₂_append_left h
  refine ⟨_, gives_substitute_of_makes has, ?_⟩
  rw [List.flatten_append]
  split
  · next he =>
    rw [if_pos he] at hbs
    cases hbs
    rfl
  · next he =>
    rw [if_neg he] at hbs
    obtain ⟨b, bs, hb, hnil, rfl⟩ := List.forall₂_cons_left_iff.1 hbs
    cases hnil
    rw [eq_of_makes_char hb]
    rfl

/-- The lines of a section and the lines behind it. -/
theorem trimmed_append_unlines {o k : Text} {body : List Item} {s : Span} {ls' : List Text}
    (htrim : s.trimNewline ↔ is = [] ∨ is = [.line []]) (hends : EndsWell (.repeated o k body :: is))
    (hline : ls ≠ [] ↔ HasLine body) (hline' : ls' ≠ [] ↔ HasLine is) :
    s.trimmed (terminated ls) ++ Text.unlines ls' = Text.unlines (ls ++ ls') := by
  by_cases hlast : is = [] ∨ is = [.line []]
  · rw [trimmed_terminated (htrim.2 hlast)]
    rcases hlast with rfl | rfl
    · have hnil : ls' = [] := not_not.1 fun h => by simpa [HasLine] using hline'.1 h
      rw [hnil, List.append_nil]
      exact List.append_nil _
    · have hnil : ls = [] := not_not.1 fun h => hends.empty_last [] o k body rfl (hline.1 h)
      rw [hnil]
      rfl
  · rw [Span.trimmed, if_neg fun h => hlast (htrim.1 h.1)]
    by_cases hnil : ls = []
    · rw [hnil]
      rfl
    · have hne : is ≠ [] := fun h => hlast (.inl h)
      have hhas : HasLine [.repeated o k body] := by
        rw [HasLine]
        exact .inl (hline.1 hnil)
      rw [unlines_append_terminated ls (hline'.2 (hends.hasLine hhas hne))]

/-- Items are rendered to their lines, if the bodies of their sections are. -/
theorem lines_of_makes (hbody : ∀ o k body, .repeated o k body ∈ is → BodyRenders settings body)
    (hflat : FlatValues settings c nested is) (hends : EndsWell is) {xs : List Symbol} {us : List Text}
    (hxs : IsSymbols is xs) (hus : List.Forall₂ (Symbol.Makes settings c nested) xs us) :
    ∃ ls, (renderLines settings c nested is).Gives ls ∧ us.flatten = Text.unlines ls := by
  induction is generalizing xs us with
  | nil =>
    obtain rfl : xs = [] := hxs
    cases hus
    exact ⟨[], by rw [renderLines]; exact gives_pure_iff.2 rfl, rfl⟩
  | cons item is ih =>
    have hbody' : ∀ o k body, .repeated o k body ∈ is → BodyRenders settings body :=
      fun o k body hm => hbody o k body (List.mem_cons_of_mem item hm)
    cases item with
    | line t =>
      rw [FlatValues] at hflat
      obtain ⟨ys, hys, rfl⟩ := hxs
      obtain ⟨as, bs, has, hbs, rfl⟩ := forall₂_append_left hus
      obtain ⟨l, hl, has⟩ := eq_of_makes_line has
      obtain ⟨ls, hls, hflatten⟩ := ih hbody' hflat.2 hends.tail hys hbs
      have hline := renderLines_ne_nil_iff hls
      refine ⟨l :: ls, ?_, ?_⟩
      · rw [renderLines]
        exact gives_bind_iff.2 ⟨l, hl, gives_bind_iff.2 ⟨ls, hls, gives_pure_iff.2 rfl⟩⟩
      · rw [List.flatten_append, has, hflatten]
        by_cases hne : is = []
        · have hnil : ls = [] := not_not.1 fun h => by simpa [hne, HasLine] using hline.1 h
          rw [if_pos hne, hnil]
          simp [Text.unlines, Text.join]
        · have hls := hline.2 (hends.hasLine (by simp [HasLine]) hne)
          rw [if_neg hne, ← List.singleton_append (x := l), unlines_append_terminated [l] hls]
          simp [terminated]
    | repeated o k body =>
      rw [FlatValues] at hflat
      obtain ⟨s, index, ys, hys, rfl, hopener, hs, htrim⟩ := hxs
      obtain ⟨a, us, ha, hrest, rfl⟩ := List.forall₂_cons_left_iff.1 hus
      obtain ⟨ls, hls, rfl⟩ :=
        exists_renderLines_repeated (k := k) (hbody o k body List.mem_cons_self) hflat.1 hopener hs ha
      obtain ⟨ls', hls', hflatten⟩ := ih hbody' hflat.2 hends.tail hys hrest
      have hboth : (renderLines settings c nested ([.repeated o k body] ++ is)).Gives (ls ++ ls') :=
        gives_renderLines_append.2 ⟨ls, ls', hls, hls', rfl⟩
      refine ⟨ls ++ ls', hboth, ?_⟩
      rw [List.flatten_cons, hflatten]
      refine trimmed_append_unlines htrim hends ((renderLines_ne_nil_iff hls).trans ?_)
        (renderLines_ne_nil_iff hls')
      simp [HasLine]

/-- The bodies of sections are rendered to their lines. -/
theorem bodyRenders {is : List Item} (h : ∀ i ∈ is, Legible [i]) (hsep : Separate is) {o k : Text}
    {body : List Item} (hmem : .repeated o k body ∈ is) : BodyRenders settings body := by
  match is, h, hsep with
  | .line t :: is, h, hsep =>
    rw [Separate] at hsep
    exact bodyRenders (fun i hi => h i (List.mem_cons_of_mem _ hi)) hsep
      ((List.mem_cons.1 hmem).resolve_left (by simp))
  | .repeated o' k' body' :: is, h, hsep =>
    rw [Separate] at hsep
    obtain ⟨hlast, hinside, hrest⟩ := hsep
    rcases List.mem_cons.1 hmem with he | hmem
    · cases he
      intro c u hflat hg
      -- Behind the last line of the body stands a newline and no more text.
      have hlegible := (h _ List.mem_cons_self).body
      have hsections : ∀ o k inside, .repeated o k inside ∈ body ++ [.line []] →
          BodyRenders settings inside := fun o k inside hmem =>
        bodyRenders (fun i hi => hlegible.of_mem (List.mem_append_left _ hi)) hinside
          ((List.mem_append.1 hmem).resolve_right (by simp))
      obtain ⟨xs, us, hxs, hus, rfl⟩ := hlegible.exists_makes hflat.append_nil hg
      obtain ⟨ls', hls', hflatten⟩ := lines_of_makes hsections hflat.append_nil (endsWell_body hlast) hxs hus
      obtain ⟨ls, bs, hls, hbs, rfl⟩ := gives_renderLines_append.1 hls'
      rw [gives_renderLines_nil hbs, unlines_append_terminated ls (by simp)] at hflatten
      exact ⟨ls, hls, by simpa [Text.unlines, Text.join] using hflatten⟩
    · exact bodyRenders (fun i hi => h i (List.mem_cons_of_mem _ hi)) hrest hmem

/-- A text of whole lines is rendered to the lines of its items. -/
theorem exists_renderLines (h : Legible is) (hflat : FlatValues settings c nested is) (hsep : Separate is)
    (hends : EndsWell is) (hg : (render settings c nested (textOf is)).Gives u) :
    ∃ ls, (renderLines settings c nested is).Gives ls ∧ u = Text.unlines ls := by
  obtain ⟨xs, us, hxs, hus, rfl⟩ := h.exists_makes hflat hg
  exact lines_of_makes (fun o k body hmem => bodyRenders (fun i hi => h.of_mem hi) hsep hmem) hflat hends hxs hus

/-! ## Lines without newlines -/

theorem newline_notMem_replaceTokens {ts : List Token} (hchar : '\n' ∉ joinTokens ts)
    (hmarker : ∀ i, .marker i ∈ ts → ∀ x, (Field.replace settings c true i).Gives x → '\n' ∉ x)
    (h : (replaceTokens settings c ts).Gives u) : '\n' ∉ u := by
  induction ts generalizing u with
  | nil =>
    rw [← gives_pure_iff.1 h]
    simp
  | cons k ts ih =>
    rw [Marker.joinTokens_cons, List.mem_append, not_or] at hchar
    have hmarker' : ∀ i, .marker i ∈ ts → ∀ x, (Field.replace settings c true i).Gives x → '\n' ∉ x :=
      fun i hi => hmarker i (List.mem_cons_of_mem _ hi)
    cases k with
    | char ch =>
      obtain ⟨after, hafter, h⟩ := gives_bind_iff.1 h
      rw [← gives_pure_iff.1 h, List.mem_cons, not_or]
      exact ⟨fun he => hchar.1 (List.mem_singleton.2 he), ih hchar.2 hmarker' hafter⟩
    | marker i =>
      obtain ⟨x, hx, h⟩ := gives_bind_iff.1 h
      obtain ⟨after, hafter, h⟩ := gives_bind_iff.1 h
      rw [← gives_pure_iff.1 h, List.mem_append, not_or]
      exact ⟨hmarker i List.mem_cons_self x hx, ih hchar.2 hmarker' hafter⟩

theorem newline_notMem_renderLines {is : List Item} {ls : List Text} {c : Context} {nested : Bool}
    (hsound : AllSound is) (hflat : FlatValues settings c nested is)
    (h : (renderLines settings c nested is).Gives ls) : ∀ l ∈ ls, '\n' ∉ l := by
  match is, hsound with
  | [], _ =>
    rw [renderLines] at h
    rw [← gives_pure_iff.1 h]
    simp
  | .line t :: is, ⟨⟨ht, _⟩, his⟩ =>
    rw [FlatValues] at hflat
    rw [renderLines, substitute_eq] at h
    obtain ⟨l, hl, h⟩ := gives_bind_iff.1 h
    obtain ⟨ls, hls, h⟩ := gives_bind_iff.1 h
    rw [← gives_pure_iff.1 h, List.forall_mem_cons]
    refine ⟨newline_notMem_replaceTokens ?_ ?_ hl, newline_notMem_renderLines his hflat.2 hls⟩
    · rwa [Marker.joinTokens_tokens]
    · exact fun i hi x hx => (hflat.1 i (List.mem_filterMap.2 ⟨_, hi, rfl⟩) x hx).1
  | .repeated o k body :: is, ⟨⟨_, _, hbody⟩, his⟩ =>
    rw [FlatValues] at hflat
    rw [renderLines] at h
    obtain ⟨records, hrecords, h⟩ := gives_bind_iff.1 h
    obtain ⟨sets, hsets, h⟩ := gives_bind_iff.1 h
    obtain ⟨ls, hls, h⟩ := gives_bind_iff.1 h
    rw [← gives_pure_iff.1 h, List.forall_mem_append]
    refine ⟨fun l hl => ?_, newline_notMem_renderLines his hflat.2 hls⟩
    obtain ⟨set, hset, hl⟩ := List.mem_flatten.1 hl
    obtain ⟨r, hr, hgives⟩ := Merging.exists_of_forall₂ (gives_mapM_iff.1 hsets).flip hset
    exact newline_notMem_renderLines hbody (hflat.1 records hrecords r hr) hgives l hl

/-- **Sections on lines of their own repeat lines.** A legible text of whole lines is rendered to its
rendered lines, wherever a section stands in it, if no section ends the body of another one and the text
ends well; and these are the lines of the rendered text if there is one. -/
theorem render_lines (settings : Settings) (c : Context) (nested : Bool) (is : List Item) (h : Legible is)
    (hflat : FlatValues settings c nested is) (hsep : Separate is) (hends : EndsWell is) (u : Text)
    (hg : (render settings c nested (textOf is)).Gives u) :
    ∃ ls, (renderLines settings c nested is).Gives ls ∧ u = Text.unlines ls ∧
      (HasLine is → Text.lines u = ls) := by
  obtain ⟨ls, hls, rfl⟩ := exists_renderLines h hflat hsep hends hg
  refine ⟨ls, hls, rfl, fun hline => ?_⟩
  exact Text.lines_unlines ((renderLines_ne_nil_iff hls).2 hline) (newline_notMem_renderLines h.sound hflat hls)

theorem flat_of_all {t : Text}
    (h : ∀ i ∈ inners t, (Field.replace settings c true i).toOption.all fun r =>
      '\n' ∉ r.1 ∧ Span.placeholderStart ∉ r.1) :
    ∀ i ∈ inners t, ∀ x, (Field.replace settings c true i).Gives x → '\n' ∉ x ∧ Span.placeholderStart ∉ x := by
  rintro i hi x ⟨log, hx⟩
  have hall := h i hi
  rw [hx] at hall
  exact of_decide_eq_true hall

theorem flatValues_repeated {o k : Text} {body : List Item} {records : List Value}
    (h : (Section.records settings (ofInner o 0) c nested : Merging ImageRequest _).Gives records)
    (hbody : ∀ r ∈ records.zipIdx, FlatValues settings (c.forRow r.1 r.2) true body)
    (his : FlatValues settings c nested is) : FlatValues settings c nested (.repeated o k body :: is) := by
  rw [FlatValues]
  exact ⟨fun records' h' => h'.unique h ▸ hbody, his⟩

/-- A name with marks. -/
def nameWith (name : Text) (marks : List Text) : Value :=
  .record [("Name", .text name), ("Marks", .list (marks.map .text))]

/-- Two names, one with two marks and one with a single one. -/
def markedNames : Context where
  data := [("Names", .list [nameWith "Ann".toList ["A".toList, "C".toList], nameWith "Bo".toList ["B".toList]])]

/-- A name, its marks and a line below them. -/
def nameLines : List Item :=
  [.line ("- ".toList ++ Marker.enclose "Name".toList),
    .repeated "#Marks".toList "/Marks".toList [.line ("* ".toList ++ Marker.enclose "value".toList)],
    .line "--".toList]

/-- Names, each with its marks. -/
def markList : List Item :=
  [.repeated "#Names".toList "/Names".toList nameLines, .line "end".toList]

theorem flatValues_nameLines (marks : List Value)
    (hname : ∀ i ∈ inners ("- ".toList ++ Marker.enclose "Name".toList),
      (Field.replace {} c true i).toOption.all fun r => '\n' ∉ r.1 ∧ Span.placeholderStart ∉ r.1)
    (hrecords : (Section.records {} (ofInner "#Marks".toList 0) c true : Merging ImageRequest _).Gives marks)
    (hmarks : ∀ r ∈ marks.zipIdx, ∀ i ∈ inners ("* ".toList ++ Marker.enclose "value".toList),
      (Field.replace {} (c.forRow r.1 r.2) true i).toOption.all fun r =>
        '\n' ∉ r.1 ∧ Span.placeholderStart ∉ r.1) :
    FlatValues {} c true nameLines := by
  have hlast : inners "--".toList = [] := by decide +kernel
  rw [nameLines, FlatValues]
  refine ⟨flat_of_all hname, flatValues_repeated hrecords (fun r hr => ?_) ?_⟩
  · rw [FlatValues, FlatValues]
    exact ⟨flat_of_all (hmarks r hr), trivial⟩
  · rw [FlatValues, FlatValues, hlast]
    exact ⟨by simp, trivial⟩

theorem flatValues_markList : FlatValues {} markedNames false markList := by
  have hnames : (Section.records {} (ofInner "#Names".toList 0) markedNames false :
      Merging ImageRequest _).Gives [nameWith "Ann".toList ["A".toList, "C".toList],
        nameWith "Bo".toList ["B".toList]] :=
    ⟨{}, rfl⟩
  refine flatValues_repeated hnames ?_ ?_
  · simp only [List.zipIdx_cons, List.zipIdx_nil, List.forall_mem_cons]
    exact ⟨flatValues_nameLines [.text "A".toList, .text "C".toList] (by decide +kernel)
      ⟨{}, rfl⟩ (by decide +kernel), flatValues_nameLines [.text "B".toList]
      (by decide +kernel) ⟨{}, rfl⟩ (by decide +kernel), by simp⟩
  · rw [FlatValues, FlatValues]
    exact ⟨flat_of_all (by decide +kernel), trivial⟩

theorem legible_markList : Legible markList where
  sound := by
    refine ⟨⟨by decide +kernel, by decide +kernel, ⟨by decide +kernel, by decide +kernel⟩,
      ⟨by decide +kernel, by decide +kernel, ⟨by decide +kernel, by decide +kernel⟩, trivial⟩,
      ⟨by decide +kernel, by decide +kernel⟩, trivial⟩, ⟨by decide +kernel, by decide +kernel⟩, trivial⟩
  unbroken := by decide +kernel
  noPlaceholder := by decide +kernel

theorem render_lines_markList :
    (Legible markList ∧ FlatValues {} markedNames false markList ∧ Separate markList ∧ EndsWell markList) ∧
    ∃ u ls, (render {} markedNames false (textOf markList)).Gives u ∧
      (renderLines {} markedNames false markList).Gives ls ∧ Text.lines u = ls ∧
      ls = ["- Ann".toList, "* A".toList, "* C".toList, "--".toList, "- Bo".toList, "* B".toList,
        "--".toList, "end".toList] := by
  have hsep : Separate markList := by
    simp only [markList, nameLines, Separate, and_true]
    constructor
    all_goals
      intro before o k last he
      have := congrArg List.getLast? he
      simp at this
  have hends : EndsWell markList := by
    constructor
    all_goals
      intro before o k body he
      have := congrArg List.getLast? he
      simp [markList] at this
  refine ⟨⟨legible_markList, flatValues_markList, hsep, hends⟩, ?_⟩
  have hrender : ((render {} markedNames false (textOf markList)).toOption.map Prod.fst) =
      some "- Ann\n* A\n* C\n--\n- Bo\n* B\n--\nend".toList := by
    decide +kernel
  cases hr : render {} markedNames false (textOf markList) with
  | error e =>
    rw [hr] at hrender
    cases hrender
  | ok r =>
    obtain ⟨ls, hls, -, hlines⟩ := render_lines {} markedNames false markList legible_markList
      flatValues_markList hsep hends r.1 ⟨r.2, hr⟩
    have hlines := hlines (by simp [markList, HasLine])
    refine ⟨r.1, ls, ⟨r.2, rfl⟩, hls, hlines, ?_⟩
    rw [hr] at hrender
    rw [← hlines, Option.some.inj hrender]
    decide +kernel

end MailMerge.Section
