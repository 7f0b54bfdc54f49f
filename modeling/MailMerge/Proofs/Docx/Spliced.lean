import MailMerge.Proofs.Docx.Readable
import MailMerge.Proofs.Xml.Placed
import Mathlib.Data.List.Infix

/-!
# Parts with other blocks in them

The tags of a container are found by searching the text of a part: the first thing that looks like a start tag, and
the last one that looks like its end tag. If these are the tags of the container itself, other blocks are put in its
place, and nothing else is changed. A root that is one tag is made a start tag and an end tag first. A body that is
one tag is not, and its end tag is not there to be found.

**`FoundTag.splice_of_isFound`**: the text between the tags is exchanged.

**`readPart_splice`**: the part with other blocks in it is read again, with these blocks and no other ones, just if
all characters of their texts are legal.
-/

namespace MailMerge.Docx

open Xml

namespace FoundTag

variable {labels : List Text} {label inside s t u after : Text} {tag : FoundTag}

/-! ## What looks like a tag -/

/-- The text begins with what is taken for a tag with the label. -/
def LooksLike (label t : Text) : Prop :=
  ∃ rest, t = '<' :: label ++ rest ∧ rest.head?.any Text.isWordChar = false ∧ '>' ∈ rest

/-- Nothing that begins in the first text, with the second one after it, is taken for a tag with a label. -/
def Lacks (labels : List Text) (s u : Text) : Prop :=
  ∀ q, q <:+ s → q ≠ [] → ∀ label ∈ labels, ¬ LooksLike label (q ++ u)

theorem atStart?_cons (label : Text) (labels : List Text) (t : Text) :
    atStart? (label :: labels) t = (atStart? [label] t).or (atStart? labels t) := by
  simp only [atStart?, List.findSome?_cons, List.findSome?_nil]
  split <;> simp

/-- The tag of one label. -/
theorem atStart?_singleton (label t : Text) :
    atStart? [label] t = (Text.dropStart? ('<' :: label) t).bind fun rest =>
      if rest.head?.any Text.isWordChar then none
      else (Text.cutFirst? ['>'] rest).map fun (inside, after) => { before := [], label, inside, after } := by
  rw [atStart?, List.findSome?_singleton]
  cases Text.dropStart? ('<' :: label) t with
  | none => rfl
  | some rest =>
    cases hword : rest.head?.any Text.isWordChar with
    | true => simp [hword]
    | false => cases hcut : Text.cutFirst? ['>'] rest <;> simp [hword, hcut]

theorem atStart?_singleton_eq_none_iff : atStart? [label] t = none ↔ ¬ LooksLike label t := by
  rw [atStart?_singleton]
  cases hd : Text.dropStart? ('<' :: label) t with
  | none =>
    refine iff_of_true rfl ?_
    rintro ⟨rest, rfl, -⟩
    rw [Text.dropStart?_append] at hd
    cases hd
  | some rest =>
    obtain rfl := Text.eq_append_of_dropStart? hd
    have hlooks : LooksLike label ('<' :: label ++ rest) ↔ rest.head?.any Text.isWordChar = false ∧ '>' ∈ rest := by
      refine ⟨?_, fun h => ⟨rest, rfl, h⟩⟩
      rintro ⟨rest', he, h⟩
      rwa [← List.append_cancel_left he] at h
    have hcut : Text.cutFirst? ['>'] rest = none ↔ '>' ∉ rest := by
      rw [Text.cutFirst?_eq_none_iff, List.mem_iff_append]
      simp
    rw [hlooks, Option.bind_some]
    by_cases hword : rest.head?.any Text.isWordChar
    · simp [hword]
    · simp [hword, hcut]

theorem atStart?_eq_none_iff : atStart? labels t = none ↔ ∀ label ∈ labels, ¬ LooksLike label t := by
  induction labels with
  | nil => exact iff_of_true rfl (List.forall_mem_nil _)
  | cons label labels ih =>
    rw [atStart?_cons, List.forall_mem_cons, ← atStart?_singleton_eq_none_iff, ← ih, Option.or_eq_none_iff]

instance : Decidable (Lacks labels s u) :=
  decidable_of_iff (∀ q ∈ s.tails, q ≠ [] → atStart? labels (q ++ u) = none) (by
    simp only [List.mem_tails, atStart?_eq_none_iff, Lacks])

theorem Lacks.tail {c : Char} (h : Lacks labels (c :: s) u) : Lacks labels s u :=
  fun q hq => h q (hq.trans (List.suffix_cons c s))

theorem Lacks.atStart? {c : Char} (h : Lacks labels (c :: s) u) : atStart? labels (c :: s ++ u) = none :=
  atStart?_eq_none_iff.2 (h _ List.suffix_rfl (List.cons_ne_nil _ _))

theorem find?_eq_none (h : Lacks labels t []) : find? labels t = none := by
  induction t with
  | nil => rfl
  | cons c t ih =>
    have hstart := h.atStart?
    rw [List.append_nil] at hstart
    rw [find?, hstart, ih h.tail]
    rfl

/-- What stands at the start of a text is found if its label is one of the labels, which all have one length. -/
theorem atStart?_text (hlabel : label ∈ labels) (hlength : ∀ l ∈ labels, l.length = label.length)
    (hword : inside.head?.any Text.isWordChar = false) (hend : '>' ∉ inside) (after : Text) :
    atStart? labels ('<' :: label ++ inside ++ ['>'] ++ after) = some { before := [], label, inside, after } := by
  induction labels with
  | nil => cases hlabel
  | cons l labels ih =>
    rw [List.forall_mem_cons] at hlength
    rw [atStart?_cons, atStart?_singleton]
    by_cases hl : l = label
    · have hany : (inside ++ ['>'] ++ after).head?.any Text.isWordChar = false := by
        cases inside with
        | nil => rfl
        | cons c inside => exact hword
      rw [hl, List.append_assoc, List.append_assoc, Text.dropStart?_append, ← List.append_assoc, Option.bind_some,
        hany, (Text.freeOf_singleton hend).cutFirst?]
      rfl
    · have hd : Text.dropStart? ('<' :: l) ('<' :: label ++ inside ++ ['>'] ++ after) = none := by
        cases hd : Text.dropStart? ('<' :: l) ('<' :: label ++ inside ++ ['>'] ++ after) with
        | none => rfl
        | some rest =>
          have he := Text.eq_append_of_dropStart? hd
          rw [List.append_assoc, List.append_assoc] at he
          have := (List.append_inj he (by simp [hlength.1])).1
          exact absurd (List.cons.inj this).2.symm hl
      rw [hd]
      exact ih ((List.mem_cons.1 hlabel).resolve_left (Ne.symm hl)) hlength.2

/-- A tag is found if nothing before it is taken for one. -/
theorem find?_text (tag : FoundTag) (hlabel : tag.label ∈ labels)
    (hlength : ∀ l ∈ labels, l.length = tag.label.length)
    (hword : tag.inside.head?.any Text.isWordChar = false) (hend : '>' ∉ tag.inside)
    (h : Lacks labels tag.before (tag.text ++ tag.after)) :
    find? labels (tag.before ++ (tag.text ++ tag.after)) = some tag := by
  have hstart := atStart?_text hlabel hlength hword hend tag.after
  obtain ⟨before, label, inside, after⟩ := tag
  dsimp only [text] at h hstart ⊢
  clear hlabel hlength hword hend
  induction before with
  | nil =>
    rw [List.nil_append, List.cons_append, List.cons_append, List.cons_append, find?]
    simp only [List.cons_append] at hstart
    rw [hstart]
  | cons c before ih =>
    rw [List.cons_append, find?, ← List.cons_append, h.atStart?]
    dsimp only
    rw [ih h.tail]
    rfl

/-! ## Parts whose container is found -/

/-- What stands before the content of the container, if the tag begins it. -/
def head (tag : FoundTag) : Text :=
  tag.before ++ if tag.isEmpty then tag.opened else tag.text

/-- The part with the text as the content of its container, if `after` is what follows the container. -/
def filled (tag : FoundTag) (after inner : Text) : Text :=
  tag.head ++ inner ++ (tag.closing ++ after)

/-- The labels that are searched together with the label of the tag. -/
def alternatives (tag : FoundTag) : List Text :=
  if tag.label = bodyLabel then [bodyLabel] else rootLabels

/-- The tag is the first thing that looks like a start tag, and no more end tags of it follow. -/
structure IsFound (tag : FoundTag) (after : Text) : Prop where
  ends : '>' ∉ tag.inside
  bodiless : tag.label ≠ bodyLabel → Lacks [bodyLabel] (tag.before ++ (tag.text ++ tag.after)) []
  first : Lacks tag.alternatives tag.before (tag.text ++ tag.after)
  last : tag.isEmpty = false → Text.contains tag.closing after = false

theorem fromLast_closing (hlabel : '<' ∉ tag.label) (h : Text.contains tag.closing after = false) (s : Text) :
    fromLast tag.closing (s ++ (tag.closing ++ after)) = tag.closing ++ after := by
  have hcut : Text.cutLast? tag.closing (s ++ (tag.closing ++ after)) = some (s, after) :=
    Text.cutLast?_append (c := '<') (by simpa using hlabel) h s
  rw [fromLast, hcut]

/-- **The content of a container is exchanged in the text of the part**, if its tags are found. -/
theorem splice_of_isFound (h : IsFound tag after) (hword : tag.inside.head?.any Text.isWordChar = false)
    (hlabel : tag.label ∈ bodyLabel :: rootLabels)
    (hempty : tag.isEmpty = true → tag.label ∈ rootLabels ∧ tag.after = after)
    (hfilled : tag.isEmpty = false → ∃ content, tag.after = content ++ (tag.closing ++ after)) (inner : Text) :
    splice (tag.before ++ (tag.text ++ tag.after)) inner = .ok (tag.filled after inner) := by
  have hlast : tag.isEmpty = false →
      fromLast tag.closing (tag.before ++ (tag.text ++ tag.after)) = tag.closing ++ after := by
    intro hfull
    obtain ⟨content, hcontent⟩ := hfilled hfull
    have hnone : '<' ∉ tag.label := by
      revert hlabel
      generalize tag.label = label
      revert label
      decide
    rw [hcontent]
    simpa using fromLast_closing hnone (h.last hfull) (tag.before ++ (tag.text ++ content))
  have hfirst := h.first
  have hbody : bodyLabel ∉ rootLabels := by decide
  rw [splice, filled, head]
  by_cases hb : tag.label = bodyLabel
  · have hfull : tag.isEmpty = false := by
      rw [← Bool.not_eq_true]
      intro he
      exact hbody (hb ▸ (hempty he).1)
    rw [alternatives, if_pos hb] at hfirst
    rw [find?_text tag (by simp [hb]) (by simp [hb]) hword h.ends hfirst]
    dsimp only
    rw [hlast hfull, hfull]
    rfl
  · have hroot : tag.label ∈ rootLabels := (List.mem_cons.1 hlabel).resolve_left hb
    have hlength : ∀ l ∈ rootLabels, ∀ l' ∈ rootLabels, l'.length = l.length := by decide
    rw [alternatives, if_neg hb] at hfirst
    rw [find?_eq_none (h.bodiless hb), find?_text tag hroot (hlength _ hroot) hword h.ends hfirst]
    dsimp only
    cases he : tag.isEmpty with
    | true =>
      rw [if_pos rfl, if_pos rfl, (hempty he).2]
      simp
    | false =>
      rw [if_neg Bool.false_ne_true, if_neg Bool.false_ne_true, hlast he]

/-! ## Containers with other content -/

/-- The tag begins the container of a part, and `after` follows the end of the container: it is the root of a page
header or a page footer, or the first body in the root of a main part. A root may be one tag. -/
structure Delimits (tag : FoundTag) (after : Text) (d : Doctype) (f : Frame) (frames : List Frame) : Prop where
  starts : StartsAt tag.before tag.inside tag.isEmpty d f frames
  label : f.label = tag.label
  place : frames = [] ∧ f.label ∈ rootLabels ∨
    ∃ r, frames = [r] ∧ f.label = bodyLabel ∧ r.name = Tag.document ∧ f.name = Tag.body ∧
      ∀ c ∈ r.children, c.name ≠ Tag.body
  empty : tag.isEmpty = true → frames = [] ∧ tag.after = after
  filled : tag.isEmpty = false →
    ∃ content items, Content d f.scope content items ∧ tag.after = content ++ (tag.closing ++ after)

namespace Delimits

variable {inner : Text} {d : Doctype} {f : Frame} {frames : List Frame} {root : Element}

theorem mem_labels (h : Delimits tag after d f frames) : f.label ∈ bodyLabel :: rootLabels := by
  rcases h.place with ⟨-, hlabel⟩ | ⟨r, -, hlabel, -⟩
  · exact List.mem_cons_of_mem _ hlabel
  · exact List.mem_cons.2 (.inl hlabel)

theorem exists_base_of_mem (h : label ∈ bodyLabel :: rootLabels) : ∃ base, label = 'w' :: ':' :: base := by
  refine ⟨label.drop 2, ?_⟩
  revert label
  decide

theorem beginsElement (h : Delimits tag after d f frames) : BeginsElement ('<' :: f.label) := by
  obtain ⟨base, hbase⟩ := exists_base_of_mem h.mem_labels
  exact ⟨'w', ':', base, by rw [hbase], by decide, by decide⟩

theorem splice (h : Delimits tag after d f frames) (hfound : IsFound tag after) (inner : Text) :
    Docx.splice (tag.before ++ (tag.text ++ tag.after)) inner = .ok (tag.filled after inner) := by
  refine splice_of_isFound hfound h.starts.any_isWordChar (h.label ▸ h.mem_labels) (fun he => ?_) (fun he => ?_) inner
  · obtain ⟨rfl, hafter⟩ := h.empty he
    rcases h.place with ⟨-, hlabel⟩ | ⟨r, hr, -⟩
    · exact ⟨h.label ▸ hlabel, hafter⟩
    · cases hr
  · obtain ⟨content, items, -, hafter⟩ := h.filled he
    exact ⟨content, hafter⟩

/-- Before the content stands a start tag. -/
theorem exists_startsAt (h : Delimits tag after d f frames) :
    ∃ inside, tag.head = tag.before ++ '<' :: f.label ++ (inside ++ ['>']) ∧
      StartsAt tag.before inside false d f frames := by
  have hstarts := h.starts
  rw [head]
  cases he : tag.isEmpty with
  | true =>
    rw [he] at hstarts
    obtain ⟨inside, hopened, hinside⟩ := hstarts.exists_opened (of_decide_eq_true he)
    refine ⟨inside, ?_, hinside⟩
    rw [if_pos rfl, opened, ← h.label, hopened]
    simp
  | false =>
    rw [he] at hstarts
    refine ⟨tag.inside, ?_, hstarts⟩
    rw [if_neg Bool.false_ne_true, text, ← h.label]
    simp

theorem leaves (h : Delimits tag after d f frames) : Leaves tag.head d (f :: frames) fun _ => True := by
  obtain ⟨inside, hhead, hinside⟩ := h.exists_startsAt
  rw [hhead]
  exact hinside.leaves h.beginsElement

theorem closing_eq (h : Delimits tag after d f frames) :
    tag.closing ++ after = '<' :: ('/' :: f.label ++ ['>']) ++ after := by
  rw [h.label]
  rfl

/-- The part has content in its container, none if the container is one tag. -/
theorem exists_content (h : Delimits tag after d f frames)
    (hparse : parse? (tag.before ++ (tag.text ++ tag.after)) = some root) :
    ∃ content items, Content d f.scope content items ∧ parse? (tag.filled after content) = some root := by
  cases he : tag.isEmpty with
  | true =>
    obtain ⟨rfl, hafter⟩ := h.empty he
    obtain ⟨inside, hhead, hinside⟩ := h.exists_startsAt
    have hstarts := h.starts
    rw [he] at hstarts
    refine ⟨[], [], .nil, ?_⟩
    rw [FoundTag.filled, hhead, List.append_nil, h.closing_eq, hinside.parse?_opened h.beginsElement, ← hparse,
      ← hstarts.parse?_empty h.beginsElement, text, ← h.label, hafter]
    simp
  | false =>
    obtain ⟨content, items, hcontent, hafter⟩ := h.filled he
    refine ⟨content, items, hcontent, ?_⟩
    rw [← hparse, FoundTag.filled, head, he, hafter]
    simp

/-- The label of the container is that of its name. -/
theorem name_eq (h : Delimits tag after d f frames) :
    f.scope.lookup ['w'] = some f.name.space ∧ f.label = 'w' :: ':' :: f.name.base := by
  obtain ⟨base, hbase⟩ := exists_base_of_mem h.mem_labels
  obtain ⟨hspace, hname⟩ := h.starts.name_eq (show f.label = ['w'] ++ ':' :: base from hbase) (by decide)
  exact ⟨hspace, hname ▸ hbase⟩

theorem name_ne_document (h : Delimits tag after d f frames) : f.name ≠ Tag.document := by
  intro hname
  have hlabel := h.mem_labels
  rw [h.name_eq.2, hname] at hlabel
  revert hlabel
  decide

theorem takesMarkup (h : Delimits tag after d f frames) (hd : d.rules = []) : TakesMarkup d f.scope f.name.space :=
  ⟨hd, h.name_eq.1, (h.starts.isSound hd).scope.xml⟩

theorem isOpenContainer (h : Delimits tag after d f frames) : IsOpenContainer f frames := by
  rcases h.place with ⟨hframes, -⟩ | ⟨r, hframes, -, hplace⟩
  · exact .inl ⟨hframes, h.name_ne_document⟩
  · exact .inr ⟨r, hframes, hplace⟩

/-- **With other content in its container a part is well-formed.** -/
theorem parse?_filled (h : Delimits tag after d f frames)
    (hparse : parse? (tag.before ++ (tag.text ++ tag.after)) = some root) {items : List Item}
    (hinner : Content d f.scope inner items) :
    ∃ root' tail, parse? (tag.filled after inner) = some root' ∧ hollow root' = hollow root ∧
      container? root' = some ((f.addAll items).element.withTail tail) := by
  obtain ⟨content, given, hcontent, hgiven⟩ := h.exists_content hparse
  exact h.isOpenContainer.exists_parse? h.leaves h.starts.isQualifiedName h.closing_eq hcontent trivial hgiven
    hinner trivial

end Delimits
end FoundTag

/-! ## Reading the blocks -/

variable {tag : FoundTag} {after inner : Text} {d : Doctype} {f : Frame} {frames : List Frame} {root : Element}
  {nodes : List Node}

open FoundTag (Delimits IsFound)

/-- With content in its container a part is read as the blocks of this content. -/
theorem readPart_filled (h : Delimits tag after d f frames)
    (hparse : parse? (tag.before ++ (tag.text ++ tag.after)) = some root) {items : List Item}
    (hinner : Content d f.scope inner items) (l : Labelling) (name : Text) :
    readPart l name (tag.filled after inner) =
      .ok { name, nodes := blocks l none (f.addAll items).element.children } := by
  obtain ⟨root', tail, hroot, -, hc⟩ := h.parse?_filled hparse hinner
  rw [readPart, hroot]
  dsimp only [Option.elim_some, bind, Except.bind]
  rw [hc]
  rfl

/-- **A part with other blocks in it is well-formed if all characters of their texts are legal**, and only then. -/
theorem isReadable_filled_iff (h : Delimits tag after d f frames) (hd : d.rules = [])
    (hparse : parse? (tag.before ++ (tag.text ++ tag.after)) = some root)
    (hcarries : ∀ n ∈ nodes, n.Carries (Fits d f.scope))
    (hwrite : writeBlocks nodes = .ok inner) :
    IsReadable (tag.filled after inner) ↔ AllLegal (Node.placedParagraphs nodes) := by
  have hinner : FitsIff d f.scope (AllLegal (Node.placedParagraphs nodes)) inner :=
    fitsIff_writeBlocks (h.takesMarkup hd) nodes [] 0 inner hcarries hwrite
  refine ⟨fun hreadable => ?_, fun hlegal => ?_⟩
  · by_contra hillegal
    rw [IsReadable, FoundTag.filled, h.leaves.parse?_of_refused (hinner.refused hillegal) trivial rfl] at hreadable
    cases hreadable
  · obtain ⟨items, hitems⟩ := (hinner.fits hlegal).content
    exact exists_readPart_iff.1 ⟨_, readPart_filled h hparse hitems ⟨[], []⟩ []⟩

/-- Plain blocks are read as they were written. -/
theorem readPart_filled_plain (h : Delimits tag after d f frames) (hd : d.rules = [])
    (hparse : parse? (tag.before ++ (tag.text ++ tag.after)) = some root) (hspace : f.name.space = markupSpace)
    (hplain : arePlainBlocks nodes) (hwrite : writeBlocks nodes = .ok inner) (l : Labelling) (name : Text) :
    readPart l name (tag.filled after inner) = .ok { name, nodes } := by
  have hmarkup := h.takesMarkup hd
  rw [hspace] at hmarkup
  obtain ⟨t, es, ht, hread, -, hblocks⟩ := readAs_blocks hmarkup hplain
  obtain rfl := Except.ok.inj (hwrite.symm.trans ht)
  obtain ⟨htext, hchildren, hpending⟩ := h.starts.empty_frame
  rw [readPart_filled h hparse hread.content, Frame.element_addAll hpending htext hchildren hread.tails,
    Element.children, hblocks l]

/-- **A part is read with the blocks that are put into it.** If the tags of its container are found, the text of
the part is kept but for the content of the container, and the part is read again just if all characters of the
texts of the blocks are legal. It has the blocks that are read from the new content then, and all else in it is as
it was. Plain blocks are read as they were written. -/
theorem readPart_splice (h : Delimits tag after d f frames) (hfound : IsFound tag after) (hd : d.rules = [])
    (hparse : parse? (tag.before ++ (tag.text ++ tag.after)) = some root)
    (hcarries : ∀ n ∈ nodes, n.Carries (Fits d f.scope)) (hwrite : writeBlocks nodes = .ok inner) :
    ∃ written, splice (tag.before ++ (tag.text ++ tag.after)) inner = .ok written ∧
      written = tag.head ++ inner ++ (tag.closing ++ after) ∧
      (IsReadable written ↔ AllLegal (Node.placedParagraphs nodes)) ∧
      (IsReadable written → ∃ items root', Content d f.scope inner items ∧ parse? written = some root' ∧
        hollow root' = hollow root ∧ ∀ l name,
          readPart l name written = .ok { name, nodes := blocks l none (f.addAll items).element.children }) ∧
      (f.name.space = markupSpace → arePlainBlocks nodes → ∀ l name,
        readPart l name written = .ok { name, nodes }) := by
  have hlegal := isReadable_filled_iff h hd hparse hcarries hwrite
  refine ⟨_, h.splice hfound inner, rfl, hlegal, fun hreadable => ?_, fun hspace hplain =>
    readPart_filled_plain h hd hparse hspace hplain hwrite⟩
  have hinner := fitsIff_writeBlocks (h.takesMarkup hd) nodes [] 0 inner hcarries hwrite
  obtain ⟨items, hitems⟩ := (hinner.fits (hlegal.1 hreadable)).content
  obtain ⟨root', tail, hroot, hhollow, -⟩ := h.parse?_filled hparse hitems
  exact ⟨items, root', hitems, hroot, hhollow, readPart_filled h hparse hitems⟩

/-- A page header that is one tag. -/
def emptyHeader : FoundTag where
  before := Template.xmlDeclaration
  label := "w:hdr"
  inside := settings rootAttributes ++ [' ', '/']
  after := ['\n']

/-- The root of the page header. -/
def headerFrame : Frame :=
  { label := "w:hdr", scope := rootScope, name := Docx.tag "hdr", attributes := [] }

theorem delimits_emptyHeader : emptyHeader.Delimits ['\n'] { standsAlone := true } headerFrame [] where
  starts := ⟨.prolog (by decide +kernel), plainAttributes rootAttributes, rootAttributes, by decide +kernel,
    attributes?_plain rfl _ _ _, by decide +kernel⟩
  label := rfl
  place := .inl ⟨rfl, by decide⟩
  empty _ := ⟨rfl, rfl⟩
  filled h := absurd h (by decide +kernel)

theorem isFound_emptyHeader : emptyHeader.IsFound ['\n'] where
  ends := by decide +kernel
  bodiless _ := by decide +kernel
  first := by decide +kernel
  last h := absurd h (by decide +kernel)

/-- A main part with a paragraph in its body. -/
def filledMainPart : FoundTag where
  before := Template.xmlDeclaration ++ '<' :: ("w:document".toList ++ settings rootAttributes ++ ['>'])
  label := bodyLabel
  inside := []
  after := element ['p'] [] ++ mainPartFoot

theorem delimits_filledMainPart :
    filledMainPart.Delimits "</w:document>" { standsAlone := true } bodyFrame [rootFrame] where
  starts := ⟨.inside (f := rootFrame) (opened?_of_literal (by decide +kernel)), plainAttributes [], [],
    by decide +kernel, attributes?_plain rfl _ _ _, by decide +kernel⟩
  label := rfl
  place := .inr ⟨rootFrame, rfl, rfl, rfl, rfl, List.forall_mem_nil _⟩
  empty h := absurd h (by decide +kernel)
  filled _ :=
    ⟨element ['p'] [], _, (ReadAs.markup (takesMarkup_rootScope true) ['p'] (by decide) .nil).content, rfl⟩

theorem isFound_filledMainPart : filledMainPart.IsFound "</w:document>" where
  ends := by decide +kernel
  bodiless h := absurd rfl h
  first := by decide +kernel
  last _ := by decide +kernel

/-- A line of text. -/
def lineBlocks : List Node :=
  [.paragraph { runs := [{ text := "Dear <Ann> & Bob" }] }]

/-- **A line is put into a page header that was one tag, and into a main part**, and is read from both. -/
theorem readPart_splice_line :
    ∃ inner header main, writeBlocks lineBlocks = .ok inner ∧
      splice (emptyHeader.before ++ (emptyHeader.text ++ emptyHeader.after)) inner = .ok header ∧
      (∀ l name, readPart l name header = .ok { name, nodes := lineBlocks }) ∧
      splice (filledMainPart.before ++ (filledMainPart.text ++ filledMainPart.after)) inner = .ok main ∧
      ∀ l name, readPart l name main = .ok { name, nodes := lineBlocks } := by
  have hheader : parse? (emptyHeader.before ++ (emptyHeader.text ++ emptyHeader.after)) = some headerFrame.element :=
    parse?_of_literal (by decide +kernel)
  have hmain : parse? (filledMainPart.before ++ (filledMainPart.text ++ filledMainPart.after)) =
      some (markupElement markupSpace "document"
        [markupElement markupSpace "body" [markupElement markupSpace ['p'] []]]) :=
    parse?_of_literal (by decide +kernel)
  have hcarries : ∀ d scope, ∀ n ∈ lineBlocks, n.Carries (Fits d scope) := fun d scope =>
    List.forall_mem_singleton.2 (.paragraph ⟨.nil, List.forall_mem_singleton.2 ⟨.nil, by simp⟩⟩)
  obtain ⟨header, hsplice, -, -, -, hread⟩ :=
    readPart_splice delimits_emptyHeader isFound_emptyHeader rfl hheader (hcarries _ _) rfl
  obtain ⟨main, hsplice', -, -, -, hread'⟩ :=
    readPart_splice delimits_filledMainPart isFound_filledMainPart rfl hmain (hcarries _ _) rfl
  have hplain : arePlainBlocks lineBlocks := by decide +kernel
  exact ⟨_, header, main, rfl, hsplice, hread rfl hplain, hsplice', hread' rfl hplain⟩

end MailMerge.Docx
