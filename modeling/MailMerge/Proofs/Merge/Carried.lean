import MailMerge.Proofs.Conditional.Kept
import MailMerge.Proofs.Merge.Stages
import MailMerge.Proofs.Section.Walk
import MailMerge.Proofs.Tree.Carried
import MailMerge.Proofs.Tree.Standing

/-!
# What a merge carries along

Each stage of a merge keeps nodes, takes texts into them, or rebuilds them from what was captured. So a merged
document carries nothing that its template does not carry.

**`keeps_carries`**: no step of the expansion of sections carries anything new.

**`Document.carries_merge`**: neither does a merge, and it keeps the parts with their names.
-/

namespace MailMerge

open Merging (Gives gives_bind_iff gives_pure_iff gives_mapM_iff)

variable {P : Text → Prop}

/-! ## Conditionals of whole nodes -/

namespace Conditional

variable {ι : Type} {fields : Condition.Fields}

mutual

/-- **Conditionals of whole nodes carry nothing new.** -/
theorem carries_resolveNodes : ∀ ns, (∀ n ∈ ns, n.Carries P) → ∀ ms,
    (resolveNodes fields ns : Merging ι (List Node)).Gives ms → ∀ m ∈ ms, m.Carries P
  | [], _, ms, h => by
    rw [resolveNodes] at h
    obtain rfl := gives_pure_iff.1 h
    exact List.forall_mem_nil _
  | n :: ns, hns, ms, h => by
    rw [List.forall_mem_cons] at hns
    have stays : nodeRole n ≠ .opens → nodeRole n ≠ .closes → ∀ m ∈ ms, m.Carries P := by
      intro ho hc
      rw [resolveNodes_inside ho hc] at h
      obtain ⟨n', hn', h⟩ := gives_bind_iff.1 h
      obtain ⟨ns', hns', h⟩ := gives_bind_iff.1 h
      obtain rfl := gives_pure_iff.1 h
      exact List.forall_mem_cons.2 ⟨carries_resolveInside n hns.1 n' hn', carries_resolveNodes ns hns.2 ns' hns'⟩
    cases hr : nodeRole n with
    | plain => exact stays (by rw [hr]; decide) (by rw [hr]; decide)
    | divides => exact stays (by rw [hr]; decide) (by rw [hr]; decide)
    | closes =>
      rw [resolveNodes_closes hr] at h
      obtain ⟨-, -, h⟩ := gives_bind_iff.1 h
      exact carries_resolveNodes ns hns.2 ms h
    | opens =>
      cases he : untilEnd 0 ns with
      | none =>
        rw [resolveNodes_unclosed hr he] at h
        exact (Merging.not_gives_fail _ _ h).elim
      | some r =>
        obtain ⟨body, after⟩ := r
        obtain ⟨hbody, hafter⟩ := subset_of_untilEnd he
        rw [resolveNodes_opens hr he] at h
        obtain ⟨selected, -, h⟩ := gives_bind_iff.1 h
        obtain ⟨kept, hkept, h⟩ := gives_bind_iff.1 h
        obtain ⟨rest, hrest, h⟩ := gives_bind_iff.1 h
        obtain rfl := gives_pure_iff.1 h
        have hrest := carries_resolveNodes after (fun m hm => hns.2 m (hafter hm)) rest hrest
        refine List.forall_mem_append.2 ⟨?_, hrest⟩
        cases selected with
        | none =>
          obtain rfl := gives_pure_iff.1 hkept
          exact List.forall_mem_nil _
        | some b =>
          have hsub := (of_mem_divide b.property).1
          exact carries_resolveNodes b.val.nodes (fun m hm => hns.2 m (hbody (hsub hm))) kept hkept
  termination_by ns => sizeOf ns
  decreasing_by
    · simp only [List.cons.sizeOf_spec]
      omega
    · simp only [List.cons.sizeOf_spec]
      omega
    · have := (size_of_untilEnd he).2
      simp only [List.cons.sizeOf_spec]
      omega
    · have h₁ := (size_of_untilEnd he).1
      have h₂ := size_of_mem_divide b.property
      simp only [List.cons.sizeOf_spec]
      omega
    · simp only [List.cons.sizeOf_spec]
      omega

theorem carries_resolveInside : ∀ n : Node, n.Carries P → ∀ m,
    (resolveInside fields n : Merging ι Node).Gives m → m.Carries P
  | .table attributes rows rendered, hn, m, h => by
    rw [resolveInside] at h
    obtain ⟨rows', hrows, h⟩ := gives_bind_iff.1 h
    obtain rfl := gives_pure_iff.1 h
    exact hn.withChildren (carries_resolveNodes rows hn.children rows' hrows)
  | .row attributes cells rendered, hn, m, h => by
    rw [resolveInside] at h
    obtain ⟨cells', hcells, h⟩ := gives_bind_iff.1 h
    obtain rfl := gives_pure_iff.1 h
    exact hn.withChildren (carries_resolveCells cells hn.children cells' hcells)
  | .paragraph p rendered, hn, m, h | .cell attributes children rendered, hn, m, h
  | .pageBreak attributes, hn, m, h | .verbatim xml, hn, m, h => by
    rw [resolveInside] at h
    · obtain rfl := gives_pure_iff.1 h
      exact hn
    all_goals simp
  termination_by n => sizeOf n

theorem carries_resolveCells : ∀ cells : List Node, (∀ n ∈ cells, n.Carries P) → ∀ ms,
    (resolveCells fields cells : Merging ι (List Node)).Gives ms → ∀ m ∈ ms, m.Carries P
  | [], _, ms, h => by
    rw [resolveCells] at h
    obtain rfl := gives_pure_iff.1 h
    exact List.forall_mem_nil _
  | .cell attributes children rendered :: cells, hcells, ms, h => by
    rw [List.forall_mem_cons] at hcells
    rw [resolveCells] at h
    obtain ⟨children', hchildren, h⟩ := gives_bind_iff.1 h
    obtain ⟨cells', hcells', h⟩ := gives_bind_iff.1 h
    obtain rfl := gives_pure_iff.1 h
    have hfirst := carries_resolveNodes children hcells.1.children children' hchildren
    exact List.forall_mem_cons.2
      ⟨hcells.1.withChildren hfirst, carries_resolveCells cells hcells.2 cells' hcells'⟩
  | .row attributes cells' rendered :: cells, hcells, ms, h | .paragraph p rendered :: cells, hcells, ms, h
  | .table attributes rows rendered :: cells, hcells, ms, h | .pageBreak attributes :: cells, hcells, ms, h
  | .verbatim xml :: cells, hcells, ms, h => by
    rw [List.forall_mem_cons] at hcells
    rw [resolveCells] at h
    · obtain ⟨cells', hcells', h⟩ := gives_bind_iff.1 h
      obtain rfl := gives_pure_iff.1 h
      exact List.forall_mem_cons.2 ⟨hcells.1, carries_resolveCells cells hcells.2 cells' hcells'⟩
    all_goals simp
  termination_by cells => sizeOf cells

end

end Conditional

/-! ## Paragraphs that are rewritten, and page breaks -/

namespace Node

variable {f : Paragraph → Merging PendingImage Paragraph}

/-- Rewriting a paragraph carries nothing new. -/
def KeepsCarried (P : Text → Prop) (f : Paragraph → Merging PendingImage Paragraph) : Prop :=
  ∀ p q, p.Carries P → (f p).Gives q → q.Carries P

theorem carries_rewriteOpenIn (hf : KeepsCarried P f) : ∀ (level : Level) (n m : Node), n.Carries P →
    (rewriteOpenIn f level n).Gives m → m.Carries P
  | .blocks, .paragraph p false, _, hn, h => by
    simp only [rewriteOpenIn, gives_bind_iff, gives_pure_iff] at h
    obtain ⟨q, hq, rfl⟩ := h
    exact .paragraph (hf p q (carries_paragraph.1 hn) hq)
  | .blocks, .table _ rows false, _, hn, h => by
    simp only [rewriteOpenIn, gives_bind_iff, gives_pure_iff] at h
    obtain ⟨rows', hrows, rfl⟩ := h
    refine hn.withChildren fun m hm => ?_
    obtain ⟨n, hn', hnm⟩ := Merging.exists_of_forall₂ ((gives_rewriteOpen_iff 0).1 hrows).flip hm
    exact carries_rewriteOpenIn hf .rows n m (hn.children n hn') hnm
  | .rows, .row _ cells false, _, hn, h => by
    simp only [rewriteOpenIn, gives_bind_iff, gives_pure_iff] at h
    obtain ⟨cells', hcells, rfl⟩ := h
    refine hn.withChildren fun m hm => ?_
    obtain ⟨n, hn', hnm⟩ := Merging.exists_of_forall₂ ((gives_rewriteOpen_iff 0).1 hcells).flip hm
    exact carries_rewriteOpenIn hf .cells n m (hn.children n hn') hnm
  | .cells, .cell _ children _, _, hn, h => by
    simp only [rewriteOpenIn, gives_bind_iff, gives_pure_iff] at h
    obtain ⟨children', hchildren, rfl⟩ := h
    refine hn.withChildren fun m hm => ?_
    obtain ⟨n, hn', hnm⟩ := Merging.exists_of_forall₂ ((gives_rewriteOpen_iff 0).1 hchildren).flip hm
    exact carries_rewriteOpenIn hf .blocks n m (hn.children n hn') hnm
  | .blocks, .paragraph _ true, _, hn, h | .blocks, .table _ _ true, _, hn, h
  | .rows, .row _ _ true, _, hn, h | .blocks, .row .., _, hn, h | .blocks, .cell .., _, hn, h
  | .blocks, .pageBreak _, _, hn, h | .blocks, .verbatim _, _, hn, h | .rows, .paragraph .., _, hn, h
  | .rows, .table .., _, hn, h | .rows, .cell .., _, hn, h | .rows, .pageBreak _, _, hn, h
  | .rows, .verbatim _, _, hn, h | .cells, .paragraph .., _, hn, h | .cells, .table .., _, hn, h
  | .cells, .row .., _, hn, h | .cells, .pageBreak _, _, hn, h | .cells, .verbatim _, _, hn, h => by
    simp only [rewriteOpenIn, gives_pure_iff] at h
    subst h
    exact hn

/-- **Rewriting the open paragraphs carries nothing new**, if no single step does. -/
theorem carries_rewriteOpen (hf : KeepsCarried P f) {level : Level} {index : Nat} {ns ms : List Node}
    (hns : ∀ n ∈ ns, n.Carries P) (h : (rewriteOpen f level index ns).Gives ms) : ∀ m ∈ ms, m.Carries P := by
  intro m hm
  obtain ⟨n, hn, hnm⟩ := Merging.exists_of_forall₂ ((gives_rewriteOpen_iff index).1 h).flip hm
  exact carries_rewriteOpenIn hf level n m (hns n hn) hnm

mutual

theorem carries_breakPagesIn : ∀ (level : Level) (n : Node), n.Carries P → (breakPagesIn level n).Carries P
  | .blocks, .paragraph p rendered, hn => by
    rw [breakPagesIn]
    split
    · exact .pageBreak (carries_paragraph.1 hn).attributes
    · exact hn
  | .blocks, .table _ rows _, hn => by
    rw [breakPagesIn]
    exact hn.withChildren (carries_breakPages .rows rows hn.children)
  | .rows, .row _ cells _, hn => by
    rw [breakPagesIn]
    exact hn.withChildren (carries_breakPages .cells cells hn.children)
  | .cells, .cell _ children _, hn => by
    rw [breakPagesIn]
    exact hn.withChildren (carries_breakPages .blocks children hn.children)
  | .blocks, .row .., hn | .blocks, .cell .., hn | .blocks, .pageBreak _, hn | .blocks, .verbatim _, hn
  | .rows, .paragraph .., hn | .rows, .table .., hn | .rows, .cell .., hn | .rows, .pageBreak _, hn
  | .rows, .verbatim _, hn | .cells, .paragraph .., hn | .cells, .table .., hn | .cells, .row .., hn
  | .cells, .pageBreak _, hn | .cells, .verbatim _, hn => by
    simpa only [breakPagesIn] using hn

/-- **Making page breaks carries nothing new.** -/
theorem carries_breakPages : ∀ (level : Level) (ns : List Node), (∀ n ∈ ns, n.Carries P) →
    ∀ m ∈ breakPages level ns, m.Carries P
  | _, [], _ => by
    rw [breakPages]
    exact List.forall_mem_nil _
  | level, n :: ns, hns => by
    rw [List.forall_mem_cons] at hns
    rw [breakPages]
    exact List.forall_mem_cons.2 ⟨carries_breakPagesIn level n hns.1, carries_breakPages level ns hns.2⟩

end

end Node

/-! ## Sections -/

namespace Section

variable {settings : Settings} {c : Context} {nested : Bool}

theorem carries_renderRow (hnil : P []) {original : Option Node} (ho : ∀ row ∈ original, row.Carries P)
    {s : RowSnapshot} (hs : s.Carries P) {made : Node} (h : (renderRow settings c original s).Gives made) :
    made.Carries P := by
  unfold renderRow at h
  obtain ⟨row, hrow, hmade⟩ := gives_bind_iff.1 h
  obtain rfl := gives_pure_iff.1 hmade
  rw [Merging.gives_claimed_iff] at hrow
  refine Node.Carries.markRendered ?_
  cases original with
  | some original =>
    obtain ⟨texts, -, hwritten⟩ := gives_bind_iff.1 hrow
    obtain rfl := gives_pure_iff.1 hwritten
    exact (ho original rfl).writeRow hnil texts
  | none =>
    obtain ⟨texts, -, hbuilt⟩ := gives_bind_iff.1 hrow
    obtain rfl := gives_pure_iff.1 hbuilt
    exact hs.build texts

/-- The rows of a section carry what the rows carry that they are made for. -/
theorem carries_renderRows (hnil : P []) {opener : Marker} {closer : Option Marker} {rows made : List Node}
    (hrows : ∀ row ∈ rows, row.Carries P)
    (h : (renderRows settings c nested opener closer rows).Gives made) : ∀ row ∈ made, row.Carries P := by
  intro row hrow
  obtain ⟨record, k, original, s, hs, horiginal, hrendered⟩ := exists_renderRow_of_mem h hrow
  exact carries_renderRow hnil (fun r hr => hrows r (horiginal r hr))
    (carries_captureRows hnil opener closer hrows s hs) hrendered

theorem keepsCarried_renderParagraph (hnil : P []) :
    Node.KeepsCarried P (renderParagraph settings c nested) := by
  intro p q hp h
  obtain ⟨t, -, hq⟩ := gives_bind_iff.1 (Merging.gives_mapImages_iff.1 h)
  obtain rfl := gives_pure_iff.1 hq
  exact hp.setText hnil t

theorem carries_renderTemplate (hnil : P []) {k : Nat} {p : Paragraph} {s : ParagraphSnapshot}
    (hp : p.Carries P) (hs : s.Carries P) {n : Node} (h : (renderTemplate settings c k p s).Gives n) :
    n.Carries P := by
  obtain ⟨q, hq, hn⟩ := gives_bind_iff.1 h
  obtain rfl := gives_pure_iff.1 hn
  obtain ⟨t, -, he⟩ := gives_bind_iff.1 (Merging.gives_mapImages_iff.1 hq)
  obtain rfl := gives_pure_iff.1 he
  refine .paragraph ?_
  split
  · exact hp.setText hnil t
  · exact hs.build t

theorem carries_finishTable (hnil : P []) {attributes : Text} {rows : List Node} (ha : P attributes)
    (hrows : ∀ row ∈ rows, row.Carries P) {n : Node} (h : (finishTable settings c attributes rows).Gives n) :
    n.Carries P := by
  obtain ⟨rows', hrows', hn⟩ := gives_bind_iff.1 h
  obtain rfl := gives_pure_iff.1 hn
  have hrewritten := Node.carries_rewriteOpen (keepsCarried_renderParagraph hnil) hrows hrows'
  refine .table ha fun row hrow => ?_
  obtain ⟨row', hrow', rfl⟩ := List.mem_map.1 hrow
  exact (hrewritten row' hrow').markRendered

/-- Each step of the expansion carries nothing new. -/
theorem keeps_carries (hnil : P []) :
    Keeps settings c (Node.Carries P) (BlockTemplate.Carries P) fun _ n => n.Carries P where
  inside h := h.children
  kept _ h := h
  table h hrows := .table (h.attributes hnil) hrows
  row h hcells := .row (h.attributes hnil) hcells
  cell h hnodes := .cell (h.attributes hnil) hnodes
  paragraph _ hp hq := .paragraph (keepsCarried_renderParagraph hnil _ _ (Node.carries_paragraph.1 hp) hq)
  rows _ _ _ hrows hmade := carries_renderRows hnil hrows hmade
  captures _ _ := carries_captureBlocks hnil
  captured h := h
  copy _ hs hn := carries_renderTemplate hnil hs.1 hs.2 hn
  finished _ h hrows hn := carries_finishTable hnil (h.attributes hnil) hrows hn
  marked h := h.markRendered

end Section

/-! ## Parts and documents -/

namespace Part

variable {settings : Settings} {c : Context}

theorem keepsCarried_fillIn (hnil : P []) : Node.KeepsCarried P (fillIn settings c) := by
  intro p q hp h
  obtain ⟨t, -, hq⟩ := gives_bind_iff.1 (Merging.gives_mapImages_iff.1 h)
  obtain rfl := gives_pure_iff.1 hq
  exact hp.setText hnil t

theorem keepsCarried_resolveParagraph (hnil : P []) :
    Node.KeepsCarried P (Conditional.resolveParagraph settings c.resolve) := by
  intro p q hp h
  obtain ⟨t, -, hq⟩ := gives_bind_iff.1 h
  obtain rfl := gives_pure_iff.1 hq
  exact hp.setText hnil t

/-- The merged part has the name of the part, and carries nothing that the part does not carry. -/
def CarriedOver (part merged : Part) : Prop :=
  merged.name = part.name ∧
    ∀ P : Text → Prop, P [] → (∀ n ∈ part.nodes, n.Carries P) → ∀ n ∈ merged.nodes, n.Carries P

theorem carriedOver_merge {part merged : Part} (h : (part.merge settings c).Gives merged) :
    part.CarriedOver merged := by
  obtain ⟨resolved, expanded, decided, filled, hresolved, hexpanded, hdecided, hfilled, rfl⟩ := gives_merge_iff.1 h
  refine ⟨rfl, fun P hnil hpart => ?_⟩
  have h₁ := Conditional.carries_resolveNodes part.nodes hpart resolved hresolved
  have h₂ := (Section.keeps_carries hnil).expandBlocks .outside resolved h₁ expanded hexpanded
  have h₃ := Node.carries_rewriteOpen (keepsCarried_resolveParagraph hnil) h₂ hdecided
  have h₄ := Node.carries_rewriteOpen (keepsCarried_fillIn hnil) h₃ hfilled
  exact Node.carries_breakPages .blocks filled h₄

end Part

/-- **A merge carries nothing new**, part by part. -/
theorem Document.carries_merge {settings : Settings} {c : Context} {d : Document} {m : Merged}
    (h : d.merge settings c = .ok m) : List.Forall₂ Part.CarriedOver d.parts m.document.parts := by
  obtain ⟨log, hparts⟩ := merge_eq_ok h
  exact (gives_mapM_iff.1 ⟨log, hparts⟩).imp fun _ _ => Part.carriedOver_merge

end MailMerge
