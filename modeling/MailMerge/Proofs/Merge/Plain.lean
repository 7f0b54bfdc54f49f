import MailMerge.Merge.Basic
import MailMerge.Proofs.Conditional.Kept
import MailMerge.Proofs.Marker.Scanned
import MailMerge.Proofs.Merge.Stages
import MailMerge.Proofs.Section.Inert
import MailMerge.Proofs.Tree.Standing

/-!
# Documents without sections

A tree has turned into another one if each paragraph has become a node that is related to it, and nothing else
has changed: the other nodes stand at the same places with the same properties. Stages that work paragraph by
paragraph turn a tree into one of the same shape.

Where no section begins and no conditional of whole nodes stands, a merge keeps the tree: each paragraph is
resolved and filled in where it stands, and a lone page break marker that comes of it becomes a page break.
Where there are no markers at all, nothing changes.

**`Turned.rewriteOpenIn`**, **`Turned.breakPagesIn`**: paragraphs are rewritten, and become page breaks, where
they stand.

**`resolveNodes_plain`**, **`expandBlocks_plain`**: the stages for whole nodes and for sections keep all nodes.

**`Document.merge_plain`**: what a merge makes of each paragraph, and of a document without markers.
-/

namespace MailMerge.Node

open Merging (gives_bind_iff gives_pure_iff)

variable {P Q : Text → Prop} {R T : Paragraph → Node → Prop} {S : Paragraph → Paragraph → Prop}

mutual

/-- The node at a level has turned into another one: its paragraphs into related nodes, and the nodes around
them into nodes with the same properties. Nodes that are out of place at the level are the same. -/
def Turned (R : Paragraph → Node → Prop) : Level → Node → Node → Prop
  | .blocks, paragraph p _, m => R p m
  | .blocks, table attributes rows rendered, m =>
    ∃ rows', m = table attributes rows' rendered ∧ AllTurned R .rows rows rows'
  | .rows, row attributes cells rendered, m =>
    ∃ cells', m = row attributes cells' rendered ∧ AllTurned R .cells cells cells'
  | .cells, cell attributes children rendered, m =>
    ∃ children', m = cell attributes children' rendered ∧ AllTurned R .blocks children children'
  | _, n, m => m = n

/-- The nodes of a list at a level have turned into others, one by one. -/
def AllTurned (R : Paragraph → Node → Prop) (level : Level) : List Node → List Node → Prop
  | [], ms => ms = []
  | n :: ns, ms => ∃ m ms', ms = m :: ms' ∧ Turned R level n m ∧ AllTurned R level ns ms'

end

mutual

/-- A template has turned into itself if its paragraphs have. -/
theorem turned_self (h : ∀ p, P p.text → R p (paragraph p)) :
    ∀ (level : Level) (n : Node), Whole P Q level n → Turned R level n n
  | .blocks, .paragraph p false, hn => h p hn.2
  | .blocks, .table _ rows _, hn => ⟨rows, rfl, allTurned_self h .rows rows hn.2⟩
  | .blocks, .pageBreak _, _ | .blocks, .verbatim _, _ => rfl
  | .rows, .row _ cells _, hn => ⟨cells, rfl, allTurned_self h .cells cells hn.2.2⟩
  | .cells, .cell _ children _, hn => ⟨children, rfl, allTurned_self h .blocks children hn⟩

theorem allTurned_self (h : ∀ p, P p.text → R p (paragraph p)) :
    ∀ (level : Level) (ns : List Node), AllWhole P Q level ns → AllTurned R level ns ns
  | _, [], _ => rfl
  | level, n :: ns, hn => ⟨n, ns, rfl, turned_self h level n hn.1, allTurned_self h level ns hn.2⟩

end

/-! ## Rewriting open paragraphs -/

section Rewriting

variable {f : Paragraph → Merging PendingImage Paragraph}

mutual

/-- **Open paragraphs are rewritten where they stand.** -/
theorem Turned.rewriteOpenIn (h : ∀ p m, R p m → ∃ q, m = paragraph q ∧ ∀ r, (f q).Gives r → T p (paragraph r)) :
    ∀ (level : Level) (n m m' : Node), Whole P Q level n → Turned R level n m →
      (rewriteOpenIn f level m).Gives m' → Turned T level n m'
  | .blocks, .paragraph p _, m, m', _, hm, hgives => by
    obtain ⟨q, rfl, hq⟩ := h p m hm
    simp only [Node.rewriteOpenIn, gives_bind_iff, gives_pure_iff] at hgives
    obtain ⟨r, hr, rfl⟩ := hgives
    exact hq r hr
  | .blocks, .table _ rows rendered, m, m', hn, hm, hgives => by
    obtain ⟨rfl, hrows⟩ := hn
    obtain ⟨rows', rfl, hturned⟩ := hm
    simp only [Node.rewriteOpenIn, gives_bind_iff, gives_pure_iff] at hgives
    obtain ⟨rows'', hgives, rfl⟩ := hgives
    exact ⟨rows'', rfl, AllTurned.rewriteOpen h .rows 0 rows rows' rows'' hrows hturned hgives⟩
  | .rows, .row _ cells rendered, m, m', hn, hm, hgives => by
    obtain ⟨rfl, -, hcells⟩ := hn
    obtain ⟨cells', rfl, hturned⟩ := hm
    simp only [Node.rewriteOpenIn, gives_bind_iff, gives_pure_iff] at hgives
    obtain ⟨cells'', hgives, rfl⟩ := hgives
    exact ⟨cells'', rfl, AllTurned.rewriteOpen h .cells 0 cells cells' cells'' hcells hturned hgives⟩
  | .cells, .cell _ children _, m, m', hn, hm, hgives => by
    obtain ⟨children', rfl, hturned⟩ := hm
    simp only [Node.rewriteOpenIn, gives_bind_iff, gives_pure_iff] at hgives
    obtain ⟨children'', hgives, rfl⟩ := hgives
    exact ⟨children'', rfl, AllTurned.rewriteOpen h .blocks 0 children children' children'' hn hturned hgives⟩
  | .blocks, .pageBreak _, m, m', _, hm, hgives | .blocks, .verbatim _, m, m', _, hm, hgives => by
    obtain rfl : m = _ := hm
    simp only [Node.rewriteOpenIn, gives_pure_iff] at hgives
    exact hgives.symm

theorem AllTurned.rewriteOpen
    (h : ∀ p m, R p m → ∃ q, m = paragraph q ∧ ∀ r, (f q).Gives r → T p (paragraph r)) :
    ∀ (level : Level) (i : Nat) (ns ms ms' : List Node), AllWhole P Q level ns → AllTurned R level ns ms →
      (rewriteOpen f level i ms).Gives ms' → AllTurned T level ns ms'
  | level, i, [], ms, ms', _, hm, hgives => by
    obtain rfl : ms = _ := hm
    simp only [Node.rewriteOpen, gives_pure_iff] at hgives
    exact hgives.symm
  | level, i, n :: ns, ms, ms', hn, hm, hgives => by
    obtain ⟨m, ms, rfl, hm, hms⟩ := hm
    obtain ⟨m', ms', hfirst, hrest, rfl⟩ :=
      List.forall₂_cons_left_iff.1 ((gives_rewriteOpen_iff i).1 hgives)
    exact ⟨m', ms', rfl, Turned.rewriteOpenIn h level n m m' hn.1 hm hfirst,
      AllTurned.rewriteOpen h level (i + 1) ns ms ms' hn.2 hms ((gives_rewriteOpen_iff (i + 1)).2 hrest)⟩

end

end Rewriting

/-! ## Page breaks -/

mutual

/-- **Lone page break markers become page breaks where they stand.** -/
theorem Turned.breakPagesIn (h : ∀ p m, R p m → ∃ q, m = paragraph q ∧
      T p (if Marker.isLonePageBreak q.text then pageBreak q.attributes else paragraph q)) :
    ∀ (level : Level) (n m : Node), Whole P Q level n → Turned R level n m →
      Turned T level n (breakPagesIn level m)
  | .blocks, .paragraph p _, m, _, hm => by
    obtain ⟨q, rfl, hq⟩ := h p m hm
    exact hq
  | .blocks, .table _ rows _, m, hn, hm => by
    obtain ⟨rows', rfl, hturned⟩ := hm
    exact ⟨_, rfl, AllTurned.breakPages h .rows rows rows' hn.2 hturned⟩
  | .rows, .row _ cells _, m, hn, hm => by
    obtain ⟨cells', rfl, hturned⟩ := hm
    exact ⟨_, rfl, AllTurned.breakPages h .cells cells cells' hn.2.2 hturned⟩
  | .cells, .cell _ children _, m, hn, hm => by
    obtain ⟨children', rfl, hturned⟩ := hm
    exact ⟨_, rfl, AllTurned.breakPages h .blocks children children' hn hturned⟩
  | .blocks, .pageBreak _, m, _, hm | .blocks, .verbatim _, m, _, hm => by
    obtain rfl : m = _ := hm
    rfl

theorem AllTurned.breakPages (h : ∀ p m, R p m → ∃ q, m = paragraph q ∧
      T p (if Marker.isLonePageBreak q.text then pageBreak q.attributes else paragraph q)) :
    ∀ (level : Level) (ns ms : List Node), AllWhole P Q level ns → AllTurned R level ns ms →
      AllTurned T level ns (breakPages level ms)
  | _, [], ms, _, hm => by
    obtain rfl : ms = _ := hm
    rfl
  | level, n :: ns, ms, hn, hm => by
    obtain ⟨m, ms, rfl, hm, hms⟩ := hm
    exact ⟨_, _, rfl, Turned.breakPagesIn h level n m hn.1 hm,
      AllTurned.breakPages h level ns ms hn.2 hms⟩

end

end MailMerge.Node

namespace MailMerge

open Merging (Gives gives_bind_iff gives_pure_iff)
open Node (Level Whole AllWhole AllTurned)

/-! ## Texts -/

/-- The text begins no section, and is no conditional marker by itself. -/
structure Marker.IsPlain (t : Text) : Prop where
  sections : ∀ m ∈ scan t, m.kind ≠ .sectionStart
  lone : ∀ m, lone? t = some m → m.kind.isConditional = false

/-- There are no opening braces in the text. -/
def Marker.IsBare (t : Text) : Prop :=
  Text.contains opening t = false

instance : DecidablePred Marker.IsBare := fun t =>
  inferInstanceAs (Decidable (Text.contains Marker.opening t = false))

namespace Marker

variable {t : Text}

theorem isPlain_iff : IsPlain t ↔
    (∀ m ∈ scan t, m.kind ≠ .sectionStart) ∧ ∀ m ∈ (lone? t).toList, m.kind.isConditional = false :=
  ⟨fun h => ⟨h.sections, fun m hm => h.lone m (Option.mem_toList.1 hm)⟩,
    fun h => ⟨h.1, fun m hm => h.2 m (Option.mem_toList.2 hm)⟩⟩

instance : DecidablePred IsPlain := fun _ => decidable_of_iff' _ isPlain_iff

theorem IsPlain.firstOpener? (h : IsPlain t) : Section.firstOpener? t = none := by
  rw [Section.firstOpener?, List.find?_eq_none]
  intro m hm
  rw [beq_iff_eq]
  exact h.sections m hm

theorem IsPlain.filter_lone? (h : IsPlain t) : ((lone? t).filter fun m => m.kind.isConditional) = none := by
  rw [Option.filter_eq_none_iff]
  intro m hm
  rw [h.lone m hm]
  decide

theorem isBare_iff : IsBare t ↔ ∀ a b, t ≠ a ++ opening ++ b :=
  Text.contains_eq_false_iff

theorem IsBare.scan (h : IsBare t) : scan t = [] :=
  scan_eq_nil_of_contains_eq_false h

theorem IsBare.segments (h : IsBare t) : segments t = ([], t) := by
  have hnext : next? t = none := scan_eq_nil_iff.1 h.scan
  rw [Marker.segments]
  split
  · rfl
  · next h => cases hnext.symm.trans h

theorem IsBare.infix {s u : Text} (h : IsBare (s ++ t ++ u)) : IsBare t :=
  isBare_iff.2 fun a b ht => isBare_iff.1 h (s ++ a) (b ++ u) (by simp [ht])

theorem IsBare.lone? (h : IsBare t) : lone? t = none := by
  obtain ⟨a, b, ht, -, -⟩ := Text.exists_trim t
  rw [ht] at h
  rw [Marker.lone?, h.infix.scan]
  exact ite_self none

theorem IsBare.isPlain (h : IsBare t) : IsPlain t where
  sections m hm := by
    rw [h.scan] at hm
    cases hm
  lone m hm := by
    rw [h.lone?] at hm
    cases hm

/-- No opening braces come about around a character between two texts. -/
theorem isBare_append_cons {s : Text} {c : Char} (hc : c ≠ '{') (hs : IsBare s) (ht : IsBare t) :
    IsBare (s ++ c :: t) := by
  refine isBare_iff.2 fun a b he => ?_
  rw [List.append_assoc] at he
  rcases List.append_eq_append_iff.1 he with ⟨u, ha, hu⟩ | ⟨u, hsu, hu⟩
  · -- The braces stand behind the first text: not at its end, so behind the character.
    cases u with
    | nil => exact hc (List.cons.inj hu).1
    | cons d u => exact isBare_iff.1 ht u b (by simpa using (List.cons.inj hu).2)
  · -- They begin in the first text, and the character is none of them.
    match u, hu with
    | [], hu => exact hc (List.cons.inj hu).1.symm
    | [d], hu => exact hc (List.cons.inj (List.cons.inj hu).2).1.symm
    | d :: e :: u, hu =>
      obtain ⟨hd, hu⟩ := List.cons.inj hu
      obtain ⟨he, -⟩ := List.cons.inj hu
      subst hd he
      exact isBare_iff.1 hs a u (by simpa [opening] using hsu)

theorem isBare_join {c : Char} (hc : c ≠ '{') : ∀ {ts : List Text}, (∀ t ∈ ts, IsBare t) →
    IsBare (Text.join [c] ts)
  | [], _ => (rfl : Text.contains opening [] = false)
  | [t], h => h t List.mem_cons_self
  | t :: u :: ts, h => by
    rw [Text.join, List.append_assoc]
    · exact isBare_append_cons hc (h t List.mem_cons_self)
        (isBare_join hc fun v hv => h v (List.mem_cons_of_mem t hv))
    · simp

end Marker

namespace Node

variable {Q : Text → Prop}

theorem isBare_texts {cells : List Node} (h : AllWhole Marker.IsBare Q .cells cells) :
    Marker.IsBare (Text.join ['\t'] (texts cells)) :=
  h.rowText (fun _ => Marker.isBare_join (by decide)) fun _ => Marker.isBare_join (by decide)

mutual

/-- Where no paragraph holds opening braces, no row does. -/
theorem Whole.isPlain : ∀ (level : Level) (n : Node), Whole Marker.IsBare Q level n →
    Whole Marker.IsPlain Marker.IsPlain level n
  | .blocks, .paragraph _ _, h => ⟨h.1, h.2.isPlain⟩
  | .blocks, .table _ rows _, h => ⟨h.1, AllWhole.isPlain .rows rows h.2⟩
  | .blocks, .pageBreak _, _ | .blocks, .verbatim _, _ => trivial
  | .rows, .row _ cells _, h =>
    ⟨h.1, (isBare_texts h.2.2).isPlain, AllWhole.isPlain .cells cells h.2.2⟩
  | .cells, .cell _ children _, h => AllWhole.isPlain .blocks children h

theorem AllWhole.isPlain : ∀ (level : Level) (ns : List Node), AllWhole Marker.IsBare Q level ns →
    AllWhole Marker.IsPlain Marker.IsPlain level ns
  | _, [], _ => trivial
  | level, n :: ns, h => ⟨Whole.isPlain level n h.1, AllWhole.isPlain level ns h.2⟩

end

end Node

/-! ## Conditionals of whole nodes -/

namespace Conditional

variable {ι : Type} (fields : Condition.Fields)

/-- In a list of blocks or of rows no node delimits a conditional. -/
theorem nodeMarker?_plain {level : Level} (hl : level ≠ .cells) {n : Node}
    (h : Whole Marker.IsPlain Marker.IsPlain level n) : nodeMarker? n = none := by
  cases level with
  | cells => exact absurd rfl hl
  | blocks =>
    cases n with
    | paragraph p rendered => exact h.2.filter_lone?
    | row => cases h
    | _ => rfl
  | rows =>
    cases n with
    | row attributes cells rendered => exact h.2.1.filter_lone?
    | _ => cases h

mutual

/-- **Without conditionals of whole nodes all nodes stay.** -/
theorem resolveNodes_plain : ∀ (level : Level), level ≠ .cells → ∀ ns : List Node,
    AllWhole Marker.IsPlain Marker.IsPlain level ns →
      (resolveNodes fields ns : Merging ι (List Node)) = pure ns
  | _, _, [], _ => by rw [resolveNodes]
  | level, hl, n :: ns, h => by
    simp only [resolveNodes, nodeMarker?_plain hl h.1]
    rw [resolveInside_plain level hl n h.1, resolveNodes_plain level hl ns h.2]
    simp

theorem resolveInside_plain : ∀ (level : Level), level ≠ .cells → ∀ n : Node,
    Whole Marker.IsPlain Marker.IsPlain level n → (resolveInside fields n : Merging ι Node) = pure n
  | .blocks, _, .table _ rows _, h => by
    rw [resolveInside, resolveNodes_plain .rows (by decide) rows h.2]
    simp
  | .rows, _, .row _ cells _, h => by
    rw [resolveInside, resolveCells_plain cells h.2.2]
    simp
  | .blocks, _, .paragraph .., _ | .blocks, _, .pageBreak _, _ | .blocks, _, .verbatim _, _ => by
    simp [resolveInside]

theorem resolveCells_plain : ∀ cells : List Node,
    AllWhole Marker.IsPlain Marker.IsPlain .cells cells →
      (resolveCells fields cells : Merging ι (List Node)) = pure cells
  | [], _ => by rw [resolveCells]
  | .cell _ children _ :: cells, h => by
    rw [resolveCells, resolveNodes_plain .blocks (by decide) children h.1, resolveCells_plain cells h.2]
    simp

end

end Conditional

/-! ## Sections -/

namespace Merging

theorem forEach_eq_pure {α β : Type} {f : α → Merging PendingImage β} {g : α → β} {xs : List α}
    (h : ∀ x ∈ xs, f x = pure (g x)) : forEach f xs = pure (xs.map g) := by
  have hstep : ∀ (k : Nat) (xs : List α), (∀ x ∈ xs, f x = pure (g x)) →
      (xs.zipIdx k).mapM (fun p => (f p.1).under p.2) = pure (xs.map g) := by
    intro k xs h
    induction xs generalizing k with
    | nil => rfl
    | cons x xs ih =>
      rw [List.zipIdx_cons, List.mapM_cons, ih _ fun y hy => h y (List.mem_cons_of_mem x hy)]
      dsimp only
      rw [h x List.mem_cons_self]
      rfl
  exact hstep 0 xs h

end Merging

namespace Section

variable (settings : Settings) (c : Context) (nested : Bool)

theorem expandRows_plain {α : Type} (node : α → Node) : ∀ rows : List α,
    (∀ r ∈ rows, Whole Marker.IsPlain Marker.IsPlain .rows (node r)) →
      expandRows settings c nested node rows = pure (rows.map .kept)
  | [], _ => by rw [expandRows]; rfl
  | r :: rs, h => by
    obtain ⟨hr, hrs⟩ := List.forall_mem_cons.1 h
    have hopener : rowOpener? (node r) = none := by
      cases hn : node r with
      | row attributes cells rendered =>
        rw [hn] at hr
        rw [rowOpener?, hr.2.1.firstOpener?, ite_self]
      | _ =>
        rw [hn] at hr
        cases hr
    rw [expandRows, hopener]
    dsimp only
    rw [expandRows_plain node rs hrs]
    rfl

/-- The row of a slot. -/
def Slot.row {rows : List Node} : Slot { r // r ∈ rows } → Node
  | .kept row => row.val
  | .made row => row

/-- A table keeps its rows if no section begins in any of them, and each keeps what is inside. -/
theorem expandTable_eq_pure {rows : List Node} (h : AllWhole Marker.IsPlain Marker.IsPlain .rows rows)
    (hrows : ∀ r ∈ rows, expandRow settings c nested r = pure r) :
    expandTable settings c nested rows = pure rows := by
  have hslots := expandRows_plain settings c nested Subtype.val rows.attach
    fun r _ => Node.allWhole_iff.1 h r.val r.property
  rw [expandTable, hslots, pure_bind]
  refine (Merging.forEach_eq_pure (g := Slot.row) fun slot hslot => ?_).trans ?_
  · obtain ⟨row, -, rfl⟩ := List.mem_map.1 hslot
    exact hrows row.val row.property
  · rw [List.map_map]
    exact congrArg pure (List.attach_map_subtype_val rows)

theorem expandRow_eq_pure {attributes : Text} {cells : List Node}
    (h : ∀ cell ∈ cells, expandCell settings c nested cell = pure cell) :
    expandRow settings c nested (.row attributes cells) = pure (.row attributes cells) := by
  rw [expandRow, Merging.forEach_eq_pure fun cell _ => h cell.val cell.property]
  rw [List.attach_map_subtype_val, pure_bind]

mutual

/-- **Without sections all nodes stay.** -/
theorem expandBlocks_plain : ∀ ns : List Node, AllWhole Marker.IsPlain Marker.IsPlain .blocks ns →
    expandBlocks settings c nested ns = pure ns
  | [], _ => by rw [expandBlocks]
  | .paragraph p false :: ns, h => by
    rw [expandBlocks, h.1.2.firstOpener?]
    dsimp only
    rw [expandBlocks_plain ns h.2]
    rfl
  | .table _ rows false :: ns, h => by
    rw [expandBlocks, expandTable_eq_pure settings c nested h.1.2 (expandRow_plain rows h.1.2),
      expandBlocks_plain ns h.2]
    rfl
  | .pageBreak _ :: ns, h | .verbatim _ :: ns, h => by
    rw [expandBlocks, expandBlocks_plain ns h.2]
    · rfl
    all_goals nofun

theorem expandRow_plain : ∀ rows : List Node, AllWhole Marker.IsPlain Marker.IsPlain .rows rows →
    ∀ r ∈ rows, expandRow settings c nested r = pure r
  | .row _ cells false :: rows, h, r, hr => by
    rcases List.mem_cons.1 hr with rfl | hr
    · exact expandRow_eq_pure settings c nested (expandCell_plain cells h.1.2.2)
    · exact expandRow_plain rows h.2 r hr

theorem expandCell_plain : ∀ cells : List Node, AllWhole Marker.IsPlain Marker.IsPlain .cells cells →
    ∀ cell ∈ cells, expandCell settings c nested cell = pure cell
  | .cell _ children _ :: cells, h, cell, hc => by
    rcases List.mem_cons.1 hc with rfl | hc
    · rw [expandCell, expandBlocks_plain children h.1, pure_bind]
    · exact expandCell_plain cells h.2 cell hc

end

end Section

/-! ## Paragraphs -/

/-- What a merge makes of the paragraph, before page breaks: its text is resolved and filled in, its properties
stay, and so do its runs with raw content, in order. If both steps give the text back, all runs stay. -/
structure Paragraph.FilledIn (settings : Settings) (c : Context) (p q : Paragraph) : Prop where
  text : ∃ t, (Conditional.resolve settings c.resolve p.text : Merging PendingImage Text).Gives t ∧
    (Field.substitute settings c true t).Gives q.text
  attributes : q.attributes = p.attributes
  runs : (Conditional.resolve settings c.resolve p.text : Merging PendingImage Text).Gives p.text →
    (Field.substitute settings c true p.text).Gives p.text → q.runs = p.runs
  raw : (q.runs.filter fun r => r.raw.isSome) = p.runs.filter fun r => r.raw.isSome

/-- What becomes of the paragraph: it is filled in, or replaced by a page break if it then is nothing but a page
break marker. -/
def Paragraph.Becomes (settings : Settings) (c : Context) (p : Paragraph) (n : Node) : Prop :=
  ∃ q, p.FilledIn settings c q ∧
    n = if Marker.isLonePageBreak q.text then .pageBreak p.attributes else .paragraph q

namespace Paragraph

variable {settings : Settings} {c : Context} {p : Paragraph}

theorem raw_restyle (p : Paragraph) (t style : Text) :
    ((p.restyle t style).runs.filter fun r => r.raw.isSome) = p.runs.filter fun r => r.raw.isSome := by
  have hnew : ((ofText t [] style).runs.filter fun r => r.raw.isSome) = [] := by
    unfold ofText
    split <;> rfl
  unfold restyle
  dsimp only
  rw [List.filter_append, List.filter_append, hnew, List.append_nil, List.filter_filter]
  simp only [Bool.and_self]
  rw [← List.filter_append, List.takeWhile_append_dropWhile]

theorem raw_setText (p : Paragraph) (t : Text) :
    ((p.setText t).runs.filter fun r => r.raw.isSome) = p.runs.filter fun r => r.raw.isSome := by
  unfold setText
  split
  · rfl
  · exact raw_restyle p t _

/-- A paragraph that is resolved, and then filled in. -/
theorem FilledIn.of_gives {q r : Paragraph}
    (hq : (Conditional.resolveParagraph settings c.resolve p : Merging PendingImage Paragraph).Gives q)
    (hr : (Part.fillIn settings c q).Gives r) : p.FilledIn settings c r := by
  simp only [Conditional.resolveParagraph, gives_bind_iff, gives_pure_iff] at hq
  obtain ⟨t, ht, rfl⟩ := hq
  simp only [Part.fillIn, Merging.here, Merging.gives_mapImages_iff, gives_bind_iff, gives_pure_iff,
    text_setText] at hr
  obtain ⟨u, hu, rfl⟩ := hr
  refine ⟨⟨t, ht, by rwa [text_setText]⟩, ?_, fun hresolve hsubstitute => ?_, ?_⟩
  · rw [attributes_setText, attributes_setText]
  · obtain rfl := Gives.unique ht hresolve
    obtain rfl := Gives.unique hu hsubstitute
    rw [setText_text, setText_text]
  · rw [raw_setText, raw_setText]

end Paragraph

/-! ## Paragraphs without markers -/

section Bare

variable {settings : Settings} {c : Context} {Q : Text → Prop} {t : Text} {p : Paragraph}

theorem Conditional.resolve_bare {ι : Type} {fields : Condition.Fields} (h : Marker.IsBare t) :
    (resolve settings fields t : Merging ι Text) = pure t := by
  have hinner : innermost t = [] := by
    rw [innermost, Marker.scanFor, h.scan]
    rfl
  have hpasses : passes fields settings.maxPasses.toNat t = .ok { text := t } := by
    cases settings.maxPasses.toNat with
    | zero => simp [passes, hinner]
    | succ most => simp [passes, hinner]
  rw [resolve, hpasses]
  rfl

theorem Field.substitute_bare (h : Marker.IsBare t) (withImages : Bool) :
    substitute settings c withImages t = pure t := by
  rw [substitute, h.segments]
  rfl

theorem Marker.IsBare.isLonePageBreak (h : IsBare t) : isLonePageBreak t = false := by
  rw [Marker.isLonePageBreak, h.lone?]
  rfl

theorem Conditional.resolveParagraph_bare {ι : Type} {fields : Condition.Fields} (h : Marker.IsBare p.text) :
    (resolveParagraph settings fields p : Merging ι Paragraph) = pure p := by
  rw [resolveParagraph, resolve_bare h, pure_bind, Paragraph.setText_text]

theorem Part.fillIn_bare (h : Marker.IsBare p.text) : fillIn settings c p = pure p := by
  rw [fillIn, Field.substitute_bare h, pure_bind, Paragraph.setText_text]
  rfl

namespace Node

mutual

theorem rewriteOpenIn_bare {f : Paragraph → Merging PendingImage Paragraph}
    (hf : ∀ p, Marker.IsBare p.text → f p = pure p) :
    ∀ (level : Level) (n : Node), Whole Marker.IsBare Q level n → rewriteOpenIn f level n = pure n
  | .blocks, .paragraph p false, h => by
    rw [rewriteOpenIn, hf p h.2, pure_bind]
  | .blocks, .table _ rows false, h => by
    rw [rewriteOpenIn, rewriteOpen_bare hf .rows 0 rows h.2, pure_bind]
  | .blocks, .pageBreak _, _ | .blocks, .verbatim _, _ => by simp [rewriteOpenIn]
  | .rows, .row _ cells false, h => by
    rw [rewriteOpenIn, rewriteOpen_bare hf .cells 0 cells h.2.2, pure_bind]
  | .cells, .cell _ children _, h => by
    rw [rewriteOpenIn, rewriteOpen_bare hf .blocks 0 children h, pure_bind]

theorem rewriteOpen_bare {f : Paragraph → Merging PendingImage Paragraph}
    (hf : ∀ p, Marker.IsBare p.text → f p = pure p) :
    ∀ (level : Level) (i : Nat) (ns : List Node), AllWhole Marker.IsBare Q level ns →
      rewriteOpen f level i ns = pure ns
  | _, _, [], _ => by rw [rewriteOpen]
  | level, i, n :: ns, h => by
    rw [rewriteOpen, rewriteOpenIn_bare hf level n h.1, rewriteOpen_bare hf level (i + 1) ns h.2]
    rfl

end

mutual

theorem breakPagesIn_bare : ∀ (level : Level) (n : Node), Whole Marker.IsBare Q level n →
    breakPagesIn level n = n
  | .blocks, .paragraph p false, h => by
    rw [breakPagesIn, h.2.isLonePageBreak]
    rfl
  | .blocks, .table _ rows _, h => by rw [breakPagesIn, breakPages_bare .rows rows h.2]
  | .blocks, .pageBreak _, _ | .blocks, .verbatim _, _ => by simp [breakPagesIn]
  | .rows, .row _ cells _, h => by rw [breakPagesIn, breakPages_bare .cells cells h.2.2]
  | .cells, .cell _ children _, h => by rw [breakPagesIn, breakPages_bare .blocks children h]

theorem breakPages_bare : ∀ (level : Level) (ns : List Node), AllWhole Marker.IsBare Q level ns →
    breakPages level ns = ns
  | _, [], _ => rfl
  | level, n :: ns, h => by
    rw [breakPages, breakPagesIn_bare level n h.1, breakPages_bare level ns h.2]

end

end Node
end Bare

/-! ## Documents -/

namespace Part

variable {settings : Settings} {c : Context} {ns ms : List Node}

/-- Without sections and conditionals of whole nodes, the paragraphs become what they become by themselves. -/
theorem allTurned_of_mergeNodes (h : AllWhole Marker.IsPlain Marker.IsPlain .blocks ns)
    (hgives : (mergeNodes settings c ns).Gives ms) :
    AllTurned (Paragraph.Becomes settings c) .blocks ns ms := by
  rw [mergeNodes, Conditional.resolveNodes_plain c.resolve .blocks (by decide) ns h, pure_bind,
    Section.expandBlocks_plain settings c false ns h, pure_bind] at hgives
  simp only [gives_bind_iff, gives_pure_iff] at hgives
  obtain ⟨resolved, hresolved, filled, hfilled, rfl⟩ := hgives
  have hself := Node.allTurned_self (R := fun p m => m = .paragraph p) (fun p _ => rfl) .blocks ns h
  have hturned := Node.AllTurned.rewriteOpen
    (T := fun p m => ∃ q, m = .paragraph q ∧ (Conditional.resolveParagraph settings c.resolve p).Gives q)
    (fun p m hm => ⟨p, hm, fun q hq => ⟨q, rfl, hq⟩⟩) .blocks 0 ns ns resolved h hself hresolved
  have hdone := Node.AllTurned.rewriteOpen
    (T := fun p m => ∃ q, m = .paragraph q ∧ p.FilledIn settings c q)
    (fun p m hm => hm.imp fun q hq => ⟨hq.1, fun r hr => ⟨r, rfl, .of_gives hq.2 hr⟩⟩)
    .blocks 0 ns resolved filled h hturned hfilled
  refine Node.AllTurned.breakPages (fun p m hm => ?_) .blocks ns filled h hdone
  obtain ⟨q, rfl, hq⟩ := hm
  exact ⟨q, rfl, q, hq, by rw [hq.attributes]⟩

theorem mergeNodes_bare {Q : Text → Prop} (h : AllWhole Marker.IsBare Q .blocks ns) :
    mergeNodes settings c ns = pure ns := by
  have hplain := Node.AllWhole.isPlain .blocks ns h
  rw [mergeNodes, Conditional.resolveNodes_plain c.resolve .blocks (by decide) ns hplain, pure_bind,
    Section.expandBlocks_plain settings c false ns hplain, pure_bind,
    Node.rewriteOpen_bare (fun p hp => Conditional.resolveParagraph_bare hp) .blocks 0 ns h, pure_bind,
    Node.rewriteOpen_bare (fun p hp => fillIn_bare hp) .blocks 0 ns h, pure_bind,
    Node.breakPages_bare .blocks ns h]

theorem merge_bare {Q : Text → Prop} {p : Part} (h : AllWhole Marker.IsBare Q .blocks p.nodes) :
    p.merge settings c = pure p := by
  rw [merge, mergeNodes_bare h]
  rfl

end Part

namespace Document

variable {settings : Settings} {c : Context} {d : Document} {m : Merged}

/-- The document is as a template is read: nothing has been rendered, tables hold rows and rows hold cells. The
texts of its paragraphs and of its rows have the given properties. -/
def Whole (P Q : Text → Prop) (d : Document) : Prop :=
  ∀ p ∈ d.parts, AllWhole P Q .blocks p.nodes

/-- A part of the same name whose paragraphs have become what they become by themselves. -/
def Becomes (settings : Settings) (c : Context) (p q : Part) : Prop :=
  q.name = p.name ∧ AllTurned (Paragraph.Becomes settings c) .blocks p.nodes q.nodes

theorem forall₂_becomes_of_merge (h : d.Whole Marker.IsPlain Marker.IsPlain)
    (hm : d.merge settings c = .ok m) : List.Forall₂ (Becomes settings c) d.parts m.document.parts := by
  obtain ⟨log, hparts⟩ := merge_eq_ok hm
  refine ((List.forall₂_and_left _ _).2 ⟨h, Merging.gives_mapM_iff.1 ⟨log, hparts⟩⟩).imp ?_
  rintro p q ⟨hp, hgives⟩
  rw [Part.merge] at hgives
  simp only [gives_bind_iff, gives_pure_iff, Merging.gives_mapImages_iff] at hgives
  obtain ⟨nodes, hnodes, rfl⟩ := hgives
  exact ⟨rfl, Part.allTurned_of_mergeNodes hp hnodes⟩

theorem leftovers_bare {Q : Text → Prop} (h : d.Whole Marker.IsBare Q) (withImages : Bool) :
    d.leftovers withImages = [] := by
  rw [leftovers, List.flatMap_eq_nil_iff]
  rintro ⟨name, p⟩ hp
  obtain ⟨part, hpart, hp⟩ := List.mem_flatMap.1 hp
  obtain ⟨q, hq, he⟩ := List.mem_map.1 hp
  obtain ⟨rfl, rfl⟩ := Prod.mk.inj he
  obtain ⟨x, hx, rfl⟩ := List.mem_map.1 hq
  have hbare : Marker.IsBare x.2.text :=
    Section.of_allWhole_paragraphsFrom [] 0 .blocks part.nodes (h part hpart) x hx
  dsimp only
  rw [Leftover.ofParagraph, show Text.contains Marker.opening x.2.text = false from hbare]
  rfl

theorem merge_bare {Q : Text → Prop} (h : d.Whole Marker.IsBare Q) :
    d.merge settings c = .ok { document := d, warnings := [], images := [] } := by
  have hparts : (d.parts.mapM (Part.merge settings c) : Merging PlacedImage (List Part)) = pure d.parts := by
    rw [Merging.mapM_congr fun p hp => Part.merge_bare (h p hp), List.mapM_pure, List.map_id']
  rw [Document.merge, hparts]
  show Except.ok (Merged.mk d (Leftover.warnings (d.leftovers false)) []) = _
  rw [leftovers_bare h]
  rfl

/-- **Without sections and conditionals of whole nodes, the paragraphs become what they become by themselves, and
nothing else changes; without opening braces nothing changes at all.** -/
theorem merge_plain (settings : Settings) (c : Context) (d : Document) :
    (d.Whole Marker.IsPlain Marker.IsPlain → ∀ m, d.merge settings c = .ok m →
      List.Forall₂ (Becomes settings c) d.parts m.document.parts) ∧
    (d.Whole Marker.IsBare (fun _ => True) →
      d.merge settings c = .ok { document := d, warnings := [], images := [] }) :=
  ⟨fun h _ => forall₂_becomes_of_merge h, merge_bare⟩

/-- A letter with a drawing, and with a page break in a table. -/
def offer : Document where
  parts := [⟨"body", [
    .paragraph { runs := [
      { text := "Dear " }, { raw := some "<w:drawing/>" },
      { text := Marker.enclose "Name" ++ Marker.enclose "IF Vip" ++ "!" ++ Marker.enclose "/IF" }] },
    .table [] [.row [] [.cell [] [Node.ofText (Marker.enclose "PAGE_BREAK"), Node.ofText "as agreed"]]],
    .verbatim "<w:sectPr/>"]⟩]

/-- The letter is filled in where its markers stand, and its leaf without markers stays as it is. -/
theorem merge_plain_offer :
    let c : Context := { data := [("Name", .text "Ann"), ("Vip", .bool true)] }
    let leaf : Document := ⟨[⟨"body", [.table [] [.row [] [.cell [] [Node.ofText "\x7d as \x7b agreed"]]]]⟩]⟩
    (offer.Whole Marker.IsPlain Marker.IsPlain ∧ ∃ m, offer.merge {} c = .ok m ∧
      List.Forall₂ (Becomes {} c) offer.parts m.document.parts) ∧
    leaf.Whole Marker.IsBare (fun _ => True) ∧
      leaf.merge {} c = .ok { document := leaf, warnings := [], images := [] } := by
  intro c leaf
  have hoffer : offer.Whole Marker.IsPlain Marker.IsPlain := List.forall_mem_singleton.2
    ⟨⟨rfl, by decide +kernel⟩, ⟨rfl, ⟨rfl, by decide +kernel,
      ⟨⟨rfl, by decide +kernel⟩, ⟨rfl, by decide +kernel⟩, trivial⟩, trivial⟩, trivial⟩, trivial, trivial⟩
  have hleaf : leaf.Whole Marker.IsBare (fun _ => True) := List.forall_mem_singleton.2
    ⟨⟨rfl, ⟨rfl, trivial, ⟨⟨rfl, by decide +kernel⟩, trivial⟩, trivial⟩, trivial⟩, trivial⟩
  have hsucceeds : (offer.merge {} c).toBool = true := by decide +kernel
  refine ⟨⟨hoffer, ?_⟩, hleaf, (merge_plain {} c leaf).2 hleaf⟩
  cases hm : offer.merge {} c with
  | error e =>
    rw [hm] at hsucceeds
    cases hsucceeds
  | ok m => exact ⟨m, rfl, (merge_plain {} c offer).1 hoffer m hm⟩

end Document
end MailMerge
