import MailMerge.Proofs.Conditional.Kept
import MailMerge.Proofs.Merge.Stages
import MailMerge.Proofs.Section.Rows
import MailMerge.Proofs.Section.Traced

/-!
# Values are not read again

Two runs that write different values in place of the same markers write texts of one pattern: it has
holes, which one run fills with the one value and the other run with the other. Values of one line
leave the lines of such texts in step.

A document is merged with one value of a field and with another one, where only plain markers of the
field read it. Whatever the values hold, the merges end alike, and their documents have the same
nodes with the one value in place of the other, but for page breaks: these are looked for after the
values are written, so a value can make a page break marker of its paragraph or unmake one.

**`swapped_of_written`**, **`swapped_lines`**: what two runs write has one pattern, and so does each line.

**`merge_values`**: the merged documents are alike if and only if no value makes or unmakes a page
break.
-/

namespace MailMerge.Section

variable {s w l r l' r' : Text}

/-! ## Patterns -/

/-- The text of a pattern, with each hole filled in. -/
def fillHoles (s : Text) (pattern : List (Option Char)) : Text :=
  pattern.flatMap fun p => p.elim s fun c => [c]

/-- The texts have one pattern, in which one text has `s` where the other has `w`. -/
def Swapped (s w l r : Text) : Prop :=
  ∃ pattern, l = fillHoles s pattern ∧ r = fillHoles w pattern

@[simp] theorem fillHoles_nil : fillHoles s [] = [] := rfl

@[simp] theorem fillHoles_char (c : Char) (pattern : List (Option Char)) :
    fillHoles s (some c :: pattern) = c :: fillHoles s pattern := rfl

@[simp] theorem fillHoles_hole (pattern : List (Option Char)) :
    fillHoles s (none :: pattern) = s ++ fillHoles s pattern := rfl

@[simp] theorem fillHoles_append (pattern pattern' : List (Option Char)) :
    fillHoles s (pattern ++ pattern') = fillHoles s pattern ++ fillHoles s pattern' :=
  List.flatMap_append

@[simp] theorem fillHoles_map_some (t : Text) : fillHoles s (t.map some) = t := by
  induction t with
  | nil => rfl
  | cons c t ih => exact congrArg (c :: ·) ih

theorem swapped_self (s w t : Text) : Swapped s w t t :=
  ⟨t.map some, (fillHoles_map_some t).symm, (fillHoles_map_some t).symm⟩

theorem swapped_values (s w : Text) : Swapped s w s w :=
  ⟨[none], by simp, by simp⟩

theorem Swapped.append (h : Swapped s w l r) (h' : Swapped s w l' r') :
    Swapped s w (l ++ l') (r ++ r') := by
  obtain ⟨pattern, rfl, rfl⟩ := h
  obtain ⟨pattern', rfl, rfl⟩ := h'
  exact ⟨pattern ++ pattern', by simp, by simp⟩

/-! ## Lines -/

theorem splitOn_append_left {sep : Char} (h : sep ∉ s) (t : Text) :
    Text.splitOn sep (s ++ t) = (Text.splitOn sep t).modifyHead (s ++ ·) := by
  induction s with
  | nil =>
    rw [List.nil_append]
    cases Text.splitOn sep t <;> rfl
  | cons c s ih =>
    rw [List.mem_cons, not_or] at h
    rw [List.cons_append, Text.splitOn, if_neg (Ne.symm h.1), ih h.2]
    cases hs : Text.splitOn sep t with
    | nil => exact absurd hs (Text.splitOn_ne_nil sep t)
    | cons piece pieces => rfl

theorem swapped_modifyHead {ls rs : List Text} (h : List.Forall₂ (Swapped s w) ls rs)
    (hlr : Swapped s w l r) :
    List.Forall₂ (Swapped s w) (ls.modifyHead (l ++ ·)) (rs.modifyHead (r ++ ·)) := by
  cases h with
  | nil => exact .nil
  | cons hline h => exact .cons (hlr.append hline) h

/-- **The lines of texts of one pattern have one pattern each**, if the values have one line. -/
theorem swapped_lines (hs : '\n' ∉ s) (hw : '\n' ∉ w) (h : Swapped s w l r) :
    List.Forall₂ (Swapped s w) (Text.lines l) (Text.lines r) := by
  obtain ⟨pattern, rfl, rfl⟩ := h
  unfold Text.lines
  induction pattern with
  | nil => exact .cons (swapped_self s w []) .nil
  | cons p pattern ih =>
    cases p with
    | none =>
      rw [fillHoles_hole, fillHoles_hole, splitOn_append_left hs, splitOn_append_left hw]
      exact swapped_modifyHead ih (swapped_values s w)
    | some c =>
      rw [fillHoles_char, fillHoles_char]
      by_cases hc : c = '\n'
      · rw [Text.splitOn, Text.splitOn, if_pos hc, if_pos hc]
        exact .cons (swapped_self s w []) ih
      · have hmem : '\n' ∉ [c] := by simpa using Ne.symm hc
        show List.Forall₂ (Swapped s w) (Text.splitOn '\n' ([c] ++ fillHoles s pattern))
          (Text.splitOn '\n' ([c] ++ fillHoles w pattern))
        rw [splitOn_append_left hmem, splitOn_append_left hmem]
        exact swapped_modifyHead ih (swapped_self s w [c])

/-! ## Values -/

/-- A value that fills a hole: some characters of one line, none of which starts a placeholder. -/
structure OneLine (s : Text) : Prop where
  nonempty : s ≠ []
  noNewline : '\n' ∉ s
  noPlaceholder : Span.placeholderStart ∉ s

theorem OneLine.getLast? (h : OneLine s) : s.getLast? ≠ some '\n' :=
  fun hl => h.noNewline (List.mem_of_getLast? hl)

/-- What is written in place of a marker is the same text, or one value in place of the other. -/
def Writes (s w l r : Text) : Prop :=
  (l = r ∧ Span.placeholderStart ∉ l) ∨ (l = s ∧ r = w)

/-- Two runs of which one writes a value where the other writes another one. -/
def swapping (hs : OneLine s) (hw : OneLine w) : Filling where
  writes := Writes s w
  noPlaceholder := by
    rintro l r (⟨rfl, h⟩ | ⟨rfl, rfl⟩)
    · exact ⟨h, h⟩
    · exact ⟨hs.noPlaceholder, hw.noPlaceholder⟩
  nil := by
    rintro l r (⟨rfl, -⟩ | ⟨rfl, rfl⟩)
    · exact Iff.rfl
    · exact ⟨fun h => absurd h hs.nonempty, fun h => absurd h hw.nonempty⟩
  newline := by
    rintro l r (⟨rfl, -⟩ | ⟨rfl, rfl⟩)
    · exact Iff.rfl
    · exact ⟨fun h => absurd h hs.getLast?, fun h => absurd h hw.getLast?⟩
  dropLast := by
    rintro l r (⟨rfl, h⟩ | ⟨rfl, rfl⟩) hn
    · exact .inl ⟨rfl, fun hm => h (List.dropLast_subset l hm)⟩
    · exact absurd hn hs.getLast?

/-- Templates whose markers have a property; a character outside markers may be any but the start of
a placeholder. -/
def anyText (P : Text → Prop) : Dialect where
  follows c x := c ≠ Span.placeholderStart ∧ x = []
  admits inner := P inner ∧ Marker.Simple inner ∧ Span.placeholderStart ∉ inner
  plain h := ⟨h.2, rfl⟩
  oneLine := by
    rintro c x ⟨-, rfl⟩
    nofun
  noPlaceholder := by
    rintro c x ⟨hc, rfl⟩
    simpa using hc.symm
  simple h := h.2.1
  admitsNoPlaceholder h := h.2.2

variable {P : Text → Prop} {hs : OneLine s} {hw : OneLine w}

/-- **What two runs write has one pattern.** -/
theorem swapped_of_written (h : Written (anyText P) (swapping hs hw) l r) : Swapped s w l r := by
  induction h with
  | nil => exact swapped_self s w []
  | @char c x l r hc _ ih => exact (swapped_self s w [c]).append ih
  | text hwrites _ ih =>
    rcases hwrites with ⟨rfl, -⟩ | ⟨rfl, rfl⟩
    · exact (swapped_self s w _).append ih
    · exact (swapped_values _ _).append ih

/-- A section produces texts of one pattern. -/
def onePattern (P : Text → Prop) (hs : OneLine s) (hw : OneLine w) :
    Finish (anyText P) (swapping hs hw) where
  done := Swapped s w
  oneLine := True
  whole := swapped_of_written
  lines h := swapped_lines hs.noNewline hw.noNewline (swapped_of_written h)
  same h := absurd trivial h

end MailMerge.Section

namespace MailMerge

open Merging (Agree)
open Node (Level Alike AllAlike Done AllWhole)
open Section (Dialect OneLine Swapped anyText swapping onePattern AllRaw)

/-! ## Ends of two runs -/

/-- Both runs end with the same error, or both have results, and these are related. -/
def SameEnd {ε α β : Type} (R : α → β → Prop) : Except ε α → Except ε β → Prop
  | .error e, .error e' => e = e'
  | .ok a, .ok b => R a b
  | _, _ => False

/-! ## Contexts with different values -/

/-- The marker asks for the field and for nothing else. -/
def Field.IsPlain (field inner : Text) : Prop :=
  (Marker.classify inner).kind = .field ∧ FieldSpec.parse inner = { path := field }

/-- The field is a text in the context, and it has no format. -/
def Context.Reads (c : Context) (field s : Text) : Prop :=
  c.resolve field = .ok (.text s) ∧ c.fieldType field = none

theorem Field.replace_of_isPlain {settings : Settings} {c : Context} {field inner s : Text}
    (hi : Field.IsPlain field inner) (hc : c.Reads field s) :
    Field.replace settings c true inner = pure s := by
  obtain ⟨hk, hp⟩ := hi
  obtain ⟨hr, ht⟩ := hc
  have hne : field ≠ [] := by
    rintro rfl
    cases hr
  unfold Field.replace
  dsimp only
  rw [hk, hp]
  dsimp only
  rw [if_neg hne]
  unfold Field.render
  rw [hr]
  show (pure (Value.text s) >>= _) = _
  rw [pure_bind, if_neg (by simp [Value.isMissing]), ht]
  rfl

section Values

variable (settings : Settings) (field s w : Text) (P : Text → Prop)

/-- The markers read the same in both contexts, but for plain markers of the field: it is `s` in the
one and `w` in the other. -/
structure ReadApart (a b : Context) : Prop where
  condition {inner : Text} : P inner → Conditional.AgreeOn a.resolve b.resolve inner
  field {inner : Text} : P inner →
    (Field.IsPlain field inner ∧ a.Reads field s ∧ b.Reads field w) ∨
      Agree (fun l r => l = r ∧ Section.Span.placeholderStart ∉ l)
        (Field.replace settings a true inner) (Field.replace settings b true inner)
  sections {inner : Text} : P inner → (Marker.classify inner).kind = .sectionStart →
    ∀ start recordOnly, SameEnd (fun rs rs' => rs.length = rs'.length)
      (Section.bound (Marker.ofInner inner start) a recordOnly)
      (Section.bound (Marker.ofInner inner start) b recordOnly)

/-- The contexts that both runs can be in at the same time: those of the merges, and those of the
records at one place of a section. -/
inductive Scope (c c' : Context) : Context → Context → Prop
  | top : Scope c c' c c'
  | row {a b : Context} {inner : Text} {start : Nat} {recordOnly : Bool} {rs rs' : List Value}
      {v v' : Value} (k : Int) : Scope c c' a b → P inner →
      (Marker.classify inner).kind = .sectionStart →
      Section.bound (Marker.ofInner inner start) a recordOnly = .ok rs →
      Section.bound (Marker.ofInner inner start) b recordOnly = .ok rs' →
      (v, v') ∈ rs.zip rs' → Scope c c' (a.forRow v k) (b.forRow v' k)

/-- Only plain markers of the field read it, in whatever scope. -/
def OnlyPlain (c c' : Context) : Prop :=
  ∀ a b, Scope P c c' a b → ReadApart settings field s w P a b

variable {settings field s w P} {c c' : Context}

theorem forall₂_of_zip {α β : Type} {R : α → β → Prop} {xs : List α} {ys : List β}
    (hl : xs.length = ys.length) (h : ∀ x y, (x, y) ∈ xs.zip ys → R x y) : List.Forall₂ R xs ys :=
  List.forall₂_iff_zip.2 ⟨hl, fun hxy => h _ _ hxy⟩

theorem agree_bound {ι : Type} {a b : Context} {inner : Text} (hread : OnlyPlain settings field s w P c c')
    (hs : Scope P c c' a b) (hi : P inner) (hk : (Marker.classify inner).kind = .sectionStart)
    (start : Nat) (recordOnly : Bool) :
    Agree (List.Forall₂ fun v v' => ∀ k, Scope P c c' (a.forRow v k) (b.forRow v' k))
      (Section.bind (ι := ι) (Marker.ofInner inner start) a recordOnly)
      (Section.bind (ι := ι) (Marker.ofInner inner start) b recordOnly) := by
  have hend := (hread a b hs).sections hi hk start recordOnly
  rw [Section.bind_eq, Section.bind_eq]
  cases ha : Section.bound (Marker.ofInner inner start) a recordOnly with
  | error e =>
    cases hb : Section.bound (Marker.ofInner inner start) b recordOnly with
    | error e' =>
      rw [ha, hb] at hend
      obtain rfl : e = e' := hend
      exact Merging.agree_fail _ e
    | ok rs' =>
      rw [ha, hb] at hend
      cases hend
  | ok rs =>
    cases hb : Section.bound (Marker.ofInner inner start) b recordOnly with
    | error e' =>
      rw [ha, hb] at hend
      cases hend
    | ok rs' =>
      rw [ha, hb] at hend
      exact Merging.agree_pure (forall₂_of_zip hend fun v v' hv k => .row k hs hi hk ha hb hv)

/-- The two merges are in lockstep. -/
def valuesLockstep (hs : OneLine s) (hw : OneLine w) (hread : OnlyPlain settings field s w P c c') :
    Section.Lockstep settings (anyText P) (swapping hs hw) where
  scopes := Scope P c c'
  condition := fun hscope hi => (hread _ _ hscope).condition hi.1
  field := by
    intro a b inner hscope hi
    rcases (hread a b hscope).field hi.1 with ⟨hp, ha, hb⟩ | h
    · rw [Field.replace_of_isPlain hp ha, Field.replace_of_isPlain hp hb]
      exact Merging.agree_pure (.inr ⟨rfl, rfl⟩)
    · exact h.mono fun l r hlr => .inl hlr
  records := by
    intro ι a b inner hscope hi hk start nested
    unfold Section.records
    refine (agree_bound hread hscope hi.1 hk start _).bind fun rs rs' h => ?_
    rw [h.length_eq]
    split
    · exact (Merging.agree_report (R := fun _ _ => True) trivial _ _ _ _).bind fun _ _ _ =>
        Merging.agree_pure h
    · exact Merging.agree_pure h

end Values

/-! ## Page breaks -/

section Breaks

variable {C : Paragraph → Paragraph → Prop}

/-- The paragraphs are related, and both are page break markers or none is. -/
def SameBreak (C : Paragraph → Paragraph → Prop) (p q : Paragraph) : Prop :=
  C p q ∧ Marker.isLonePageBreak p.text = Marker.isLonePageBreak q.text

mutual

/-- **Trees that are alike stay alike with page breaks if and only if the same paragraphs are page
break markers.** -/
theorem alike_breakPagesIn_iff (hC : ∀ p q, C p q → p.attributes = q.attributes) :
    ∀ (level : Level) (n m : Node) {closed : Bool}, Alike C C closed level n m →
      (Alike C C closed level (Node.breakPagesIn level n) (Node.breakPagesIn level m) ↔
        Alike (SameBreak C) (SameBreak C) closed level n m)
  | .blocks, .paragraph p rendered, _, closed, ⟨q, hm, hpq⟩ => by
    subst hm
    have hrel : C p q := by
      unfold Node.Status at hpq
      split at hpq <;> exact hpq
    have hstatus : ∀ R : Paragraph → Paragraph → Prop,
        Node.Status R R (closed || rendered) p q ↔ R p q := by
      intro R
      unfold Node.Status
      split <;> exact Iff.rfl
    rw [Node.alike_paragraph, hstatus, Node.breakPagesIn, Node.breakPagesIn]
    cases hp : Marker.isLonePageBreak p.text <;> cases hq : Marker.isLonePageBreak q.text
    · simp [Node.alike_paragraph, hstatus, hrel, SameBreak, hp, hq]
    · simp [Alike, SameBreak, hp, hq]
    · simp [Alike, SameBreak, hp, hq]
    · simp [Alike, SameBreak, hp, hq, hrel, hC p q hrel]
  | .blocks, .table attributes rows rendered, _, closed, ⟨rows', hm, hrows⟩ => by
    subst hm
    have ih := allAlike_breakPages_iff hC .rows rows rows' hrows
    simpa [Alike, Node.breakPagesIn] using ih
  | .rows, .row attributes cells rendered, _, closed, ⟨cells', hm, hcells⟩ => by
    subst hm
    have ih := allAlike_breakPages_iff hC .cells cells cells' hcells
    simpa [Alike, Node.breakPagesIn] using ih
  | .cells, .cell attributes children rendered, _, closed, ⟨children', hm, hch⟩ => by
    subst hm
    have ih := allAlike_breakPages_iff hC .blocks children children' hch
    simpa [Alike, Node.breakPagesIn] using ih
  | .blocks, .row .., _, _, hm | .blocks, .cell .., _, _, hm | .blocks, .pageBreak _, _, _, hm
  | .blocks, .verbatim _, _, _, hm | .rows, .paragraph .., _, _, hm | .rows, .table .., _, _, hm
  | .rows, .cell .., _, _, hm | .rows, .pageBreak _, _, _, hm | .rows, .verbatim _, _, _, hm
  | .cells, .paragraph .., _, _, hm | .cells, .table .., _, _, hm | .cells, .row .., _, _, hm
  | .cells, .pageBreak _, _, _, hm | .cells, .verbatim _, _, _, hm => by
    obtain rfl : _ = _ := hm
    exact Iff.intro (fun _ => rfl) (fun _ => rfl)

theorem allAlike_breakPages_iff (hC : ∀ p q, C p q → p.attributes = q.attributes) :
    ∀ (level : Level) (ns ms : List Node) {closed : Bool}, AllAlike C C closed level ns ms →
      (AllAlike C C closed level (Node.breakPages level ns) (Node.breakPages level ms) ↔
        AllAlike (SameBreak C) (SameBreak C) closed level ns ms)
  | level, [], _, _, hms => by
    obtain rfl : _ = _ := hms
    exact Iff.intro (fun _ => rfl) (fun _ => rfl)
  | level, n :: ns, _, closed, ⟨m, ms', hms, hn, hns⟩ => by
    subst hms
    have ihn := alike_breakPagesIn_iff hC level n m hn
    have ihns := allAlike_breakPages_iff hC level ns ms' hns
    simp only [Node.breakPages, AllAlike, List.cons.injEq]
    constructor
    · rintro ⟨_, _, ⟨rfl, rfl⟩, h, h'⟩
      exact ⟨m, ms', ⟨rfl, rfl⟩, ihn.1 h, ihns.1 h'⟩
    · rintro ⟨_, _, ⟨rfl, rfl⟩, h, h'⟩
      exact ⟨_, _, ⟨rfl, rfl⟩, ihn.2 h, ihns.2 h'⟩

end

end Breaks

/-! ## Documents -/

/-- The parts come of nodes that are alike, by page breaks; and they are alike themselves if and only
if the same paragraphs are page break markers. -/
def Part.AlikeButBreaks (C : Paragraph → Paragraph → Prop) (p q : Part) : Prop :=
  p.name = q.name ∧ ∃ us vs, p.nodes = Node.breakPages .blocks us ∧
    q.nodes = Node.breakPages .blocks vs ∧ AllAlike C C false .blocks us vs ∧
    (AllAlike C C false .blocks p.nodes q.nodes ↔
      AllAlike (SameBreak C) (SameBreak C) false .blocks us vs)

theorem Part.alikeButBreaks {K : Text → Text → Prop} {p q : Part} (h : Part.Alike K p q) :
    Part.AlikeButBreaks (Done K) p q := by
  obtain ⟨hname, us, vs, hp, hq, huv⟩ := h
  have halike := Node.allAlike_iff.2 huv
  refine ⟨hname, us, vs, hp, hq, halike, ?_⟩
  rw [hp, hq]
  exact allAlike_breakPages_iff (fun _ _ hd => hd.1) .blocks us vs halike

namespace Document

variable {settings : Settings} {field s w : Text} {P : Text → Prop} {c c' : Context} {d : Document}

/-- The document is a template of markers with a property, before and after the conditionals of whole
nodes are resolved. -/
structure IsTemplate (P : Text → Prop) (hs : OneLine s) (hw : OneLine w) (c : Context)
    (d : Document) : Prop where
  whole : ∀ p ∈ d.parts, AllWhole (anyText P).Template (anyText P).Template .blocks p.nodes
  left : ∀ p ∈ d.parts, ∀ left log,
    (Conditional.resolveNodes c.resolve p.nodes : Merging PendingImage (List Node)) =
      Except.ok (left, log) → AllRaw (anyText P) (onePattern P hs hw) .blocks left

theorem IsTemplate.leavesRaw {hs : OneLine s} {hw : OneLine w} (h : d.IsTemplate P hs hw c)
    (hread : OnlyPlain settings field s w P c c') :
    ∀ p ∈ d.parts, Part.LeavesRaw (anyText P) (onePattern P hs hw) c c' p.nodes := by
  intro p hp
  have hagree : Conditional.AgreeWhere c.resolve c'.resolve (anyText P).Template
      (anyText P).Template := by
    intro t ht inner hi
    have ht : (anyText P).Template t := ht.elim id id
    exact (hread c c' .top).condition (ht.admits hi).1
  have hsame := Conditional.agree_resolveNodes (ι := PendingImage) hagree (by decide) p.nodes
    (h.whole p hp)
  refine (hsame.and fun left log hl => h.left p hp left log hl).mono ?_
  rintro left _ ⟨⟨rfl, -⟩, hraw⟩
  exact ⟨rfl, hraw⟩

theorem sameEnd_merge {R : Part → Part → Prop}
    (h : Agree (List.Forall₂ R) (d.parts.mapM (Part.merge settings c))
      (d.parts.mapM (Part.merge settings c'))) :
    SameEnd (fun m m' : Merged => List.Forall₂ R m.document.parts m'.document.parts)
      (d.merge settings c) (d.merge settings c') := by
  cases hm : d.merge settings c with
  | error e =>
    cases hm' : d.merge settings c' with
    | error e' =>
      rw [merge_eq_error hm, merge_eq_error hm'] at h
      exact h
    | ok m' =>
      obtain ⟨log', hp'⟩ := merge_eq_ok hm'
      rw [merge_eq_error hm, hp'] at h
      cases h
  | ok m =>
    obtain ⟨log, hp⟩ := merge_eq_ok hm
    cases hm' : d.merge settings c' with
    | error e' =>
      rw [hp, merge_eq_error hm'] at h
      cases h
    | ok m' =>
      obtain ⟨log', hp'⟩ := merge_eq_ok hm'
      exact h.of_ok hp hp'

/-- **Merges with different values end alike.** The merged documents have the same nodes with one
value in place of the other, if and only if no value makes or unmakes a page break marker. -/
theorem merge_values (hs : OneLine s) (hw : OneLine w)
    (hread : OnlyPlain settings field s w P c c') (hd : d.IsTemplate P hs hw c) :
    SameEnd (fun m m' : Merged => List.Forall₂ (Part.AlikeButBreaks (Done (Swapped s w)))
      m.document.parts m'.document.parts) (d.merge settings c) (d.merge settings c') := by
  have hagree := agree_mergeParts (onePattern P hs hw) (valuesLockstep hs hw hread) .top
    (hd.leavesRaw hread)
  refine sameEnd_merge (hagree.mono fun parts parts' h => ?_)
  exact h.imp fun p q hpq => Part.alikeButBreaks hpq

/-! ### Values at hand -/

/-- A greeting that names someone twice, the second time in a paragraph of its own. -/
def greeting : Document where
  parts := [⟨"body", [Node.ofText "Dear {{Name}},", Node.ofText "{{Name}}"]⟩]

/-- A name. -/
def named (s : Text) : Context where
  data := [("Name", .text s)]

theorem isPlain_name : Field.IsPlain "Name" "Name" :=
  ⟨by decide +kernel, by decide +kernel⟩

theorem reads_named (s : Text) : (named s).Reads "Name" s :=
  ⟨by rfl, rfl⟩

theorem onlyPlain_named (s w : Text) :
    OnlyPlain {} "Name" s w (· = "Name".toList) (named s) (named w) := by
  have hk : (Marker.classify "Name".toList).kind = .field := isPlain_name.1
  intro a b hscope
  cases hscope with
  | top =>
    constructor
    case condition =>
      rintro _ rfl hc
      rw [hk] at hc
      simp at hc
    case field =>
      rintro _ rfl
      exact .inl ⟨isPlain_name, reads_named s, reads_named w⟩
    case sections =>
      rintro _ rfl hs
      rw [hk] at hs
      cases hs
  | row k hscope hi hs =>
    rw [hi, hk] at hs
    cases hs

theorem greeting_isTemplate (hs : OneLine s) (hw : OneLine w) (c : Context) :
    greeting.IsTemplate (· = "Name".toList) hs hw c := by
  have hmarker : ∀ t, (anyText (· = "Name".toList)).Template t →
      (anyText (· = "Name".toList)).Template (Marker.enclose "Name" ++ t) := fun t ht =>
    Dialect.template_enclose_append (by decide +kernel)
      ⟨rfl, by decide +kernel, by decide⟩ ht
  have hcomma : (anyText (· = "Name".toList)).Template [','] :=
    Dialect.template_plain_append (by decide : Text.AllPlain [',']) Dialect.template_nil
  have hdear : (anyText (· = "Name".toList)).Template "Dear {{Name}},".toList :=
    Dialect.template_plain_append (by decide : Text.AllPlain "Dear ".toList) (hmarker _ hcomma)
  have hname : (anyText (· = "Name".toList)).Template "{{Name}}".toList :=
    hmarker [] Dialect.template_nil
  constructor
  case whole =>
    intro p hp
    obtain rfl := List.mem_singleton.1 hp
    exact ⟨Node.whole_ofText hdear, Node.whole_ofText hname, trivial⟩
  case left =>
    intro p hp left log hleft
    obtain rfl := List.mem_singleton.1 hp
    have hkeep : (Conditional.resolveNodes c.resolve (greeting.parts.flatMap (·.nodes)) :
        Merging PendingImage (List Node)) = Except.ok (greeting.parts.flatMap (·.nodes), {}) := by
      with_unfolding_all rfl
    obtain ⟨rfl, -⟩ := Prod.mk.inj (Except.ok.inj (hleft.symm.trans hkeep))
    exact ⟨⟨rfl, hdear⟩, ⟨rfl, hname⟩, trivial⟩

theorem merge_values_marker_or_word :
    SameEnd (fun m m' : Merged =>
        List.Forall₂ (Part.AlikeButBreaks (Done (Swapped "{{X}}" "word")))
          m.document.parts m'.document.parts)
      (greeting.merge {} (named "{{X}}")) (greeting.merge {} (named "word")) := by
  have hs : OneLine "{{X}}".toList := ⟨by decide, by decide, by decide⟩
  have hw : OneLine "word".toList := ⟨by decide, by decide, by decide⟩
  exact merge_values hs hw (onlyPlain_named _ _) (greeting_isTemplate hs hw _)

/-- A value that is the text of a page break marker makes a page break of its paragraph. -/
example :
    (greeting.merge {} (named "{{PAGE_BREAK}}")).toOption.map (·.document.paragraphs.length) =
        some 1 ∧
      (greeting.merge {} (named "word")).toOption.map (·.document.paragraphs.length) = some 2 := by
  decide +kernel

end Document
end MailMerge
