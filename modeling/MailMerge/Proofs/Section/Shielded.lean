import MailMerge.Proofs.Merge.Causes
import MailMerge.Proofs.Nesting.Basic
import MailMerge.Proofs.Section.Reference
import MailMerge.Proofs.Section.Within
import Mathlib.Data.List.Duplicate

/-!
# Sections under a false condition

An item in the first branch of a pair is hidden if the opener of the pair does not hold. Evaluation
from the outside drops it, whether it comes to the pair or drops that one too.

A section of a text is shielded if it stands in the first branch of a conditional whose condition does
not hold. The conditionals of a paragraph are resolved before its sections are bound, so a shielded
section is dropped, and rendering lacks records only where a section lacks them that is left. In a
table it is the other way round: the section that a row opens is bound first, before any conditional
in the row is looked at.

**`Hidden.not_mem_keep`**: an item that is hidden, and stands nowhere else, is not kept.

**`not_mem_remaining`**: a shielded section is not left.

**`fails_expandTable`**: a row whose section has nothing to repeat over ends the expansion.
-/

namespace MailMerge.Nesting

variable {α : Type} {role : α → Role} {holds : α → Bool} {a : α}

/-- The item stands in the first branch of a pair, at any depth, whose opener does not hold. -/
inductive Hidden (role : α → Role) (holds : α → Bool) (a : α) : List (Piece α) → Prop
  | here {opener closer : α} {first rest ps : List (Piece α)} (unheld : holds opener = false)
      (undivided : ∀ p ∈ first, ¬ divides role p) (mem : a ∈ flatten first) :
      Hidden role holds a (.pair opener (first ++ rest) closer :: ps)
  | inside {opener closer : α} {body ps : List (Piece α)} (h : Hidden role holds a body) :
      Hidden role holds a (.pair opener body closer :: ps)
  | later {p : Piece α} {ps : List (Piece α)} (h : Hidden role holds a ps) :
      Hidden role holds a (p :: ps)

theorem flatten_cons (p : Piece α) (ps : List (Piece α)) :
    flatten (p :: ps) = flatten [p] ++ flatten ps :=
  flatten_append [p] ps

theorem Hidden.mem_flatten {ps : List (Piece α)} (h : Hidden role holds a ps) : a ∈ flatten ps := by
  induction h with
  | here _ _ hm => simp [hm]
  | inside _ ih => simp [ih]
  | later _ ih =>
    rw [flatten_cons]
    exact List.mem_append_right _ ih

/-- What is chosen comes after the first branch if the opener does not hold. -/
theorem chosen_of_not_holds {opener : α} (hh : holds opener = false) {first : List (Piece α)}
    (hf : ∀ p ∈ first, ¬ divides role p) (rest : List (Piece α)) :
    ∃ before after, rest = before ++ chosen role holds opener (first ++ rest) ++ after := by
  rw [chosen, branches, branchesFrom_append hf, List.nil_append]
  induction rest generalizing first with
  | nil => exact ⟨[], [], by simp [branchesFrom, hh]⟩
  | cons p rest ih =>
    by_cases hp : divides role p
    · cases p with
      | pair => cases hp
      | item b =>
        rw [branchesFrom_item hp, List.find?_cons_of_neg (by simp [hh])]
        cases hb : (branchesFrom role b [] rest).find? fun b => holds b.head with
        | none => exact ⟨[], .item b :: rest, rfl⟩
        | some branch =>
          obtain ⟨before, after, he⟩ := content_of_mem_branchesFrom (List.mem_of_find?_eq_some hb)
          exact ⟨.item b :: before, after, congrArg (.item b :: ·) he⟩
    · have hundivided : ∀ q ∈ first ++ [p], ¬ divides role q := by
        intro q hq
        rcases List.mem_append.1 hq with hq | hq
        · exact hf q hq
        · rwa [List.mem_singleton.1 hq]
      rw [branchesFrom_cons hp]
      obtain ⟨before, after, he⟩ := ih hundivided
      exact ⟨p :: before, after, congrArg (p :: ·) he⟩

theorem not_mem_of_not_duplicate {xs ys : List α} (h : ¬ List.Duplicate a (xs ++ ys)) (ha : a ∈ xs) :
    a ∉ ys := by
  intro hy
  apply h
  rw [List.duplicate_iff_sublist]
  exact (List.singleton_sublist.2 ha).append (List.singleton_sublist.2 hy)

/-- **An item that is hidden, and stands nowhere else, is not kept.** -/
theorem Hidden.not_mem_keep {ps : List (Piece α)} (h : Hidden role holds a ps)
    (hd : ¬ List.Duplicate a (flatten ps)) : a ∉ keep role holds ps := by
  induction h with
  | @here opener closer first rest ps hh hf hm =>
    rw [flatten_pair, flatten_append, List.append_assoc] at hd
    have hrest := not_mem_of_not_duplicate (fun h => hd (h.duplicate_cons opener)) hm
    rw [keep_pair, List.mem_append]
    rintro (hk | hk)
    · obtain ⟨before, after, he⟩ := chosen_of_not_holds hh hf rest
      apply hrest
      rw [he]
      have := mem_of_mem_keep hk
      simp [this]
    · apply hrest
      simp [mem_of_mem_keep hk]
  | @inside opener closer body ps h ih =>
    rw [flatten_pair] at hd
    have hrest := not_mem_of_not_duplicate (fun h => hd (h.duplicate_cons opener)) h.mem_flatten
    have hbody := ih fun h => hd ((h.mono_sublist (List.sublist_append_left _ _)).duplicate_cons opener)
    rw [keep_pair, List.mem_append]
    rintro (hk | hk)
    · obtain ⟨before, after, he⟩ := chosen_part role holds opener body
      apply hbody
      rw [he]
      simp [hk]
    · apply hrest
      simp [mem_of_mem_keep hk]
  | @later p ps h ih =>
    rw [flatten_cons] at hd
    have hps := ih fun h => hd (h.mono_sublist (List.sublist_append_right _ _))
    rw [← List.singleton_append, keep_append, List.mem_append]
    rintro (hk | hk)
    · exact not_mem_of_not_duplicate hd (mem_of_mem_keep hk) h.mem_flatten
    · exact hps hk

end MailMerge.Nesting

namespace MailMerge.Section

open Merging (Fails Gives)

variable {settings : Settings} {c : Context} {nested : Bool} {label : Text} {lack : Lack}

/-! ## Shielded sections -/

/-- The section stands in the first branch of a conditional, at any depth, whose condition does not
hold. -/
def Shielded (fields : Condition.Fields) (t : Text) (s : Span) (index : Nat) : Prop :=
  Nesting.Hidden Symbol.role (Symbol.holds fields) (.span s index) (symbolPieces t)

/-- Each section is there once. -/
theorem not_duplicate_span (t : Text) (s : Span) (index : Nat) :
    ¬ List.Duplicate (.span s index) (symbols t) := by
  intro h
  have hspans := ((List.duplicate_iff_sublist.1 h).filterMap Symbol.span?).map Prod.snd
  rw [symbols, filterMap_symbolsFrom, List.zipIdx_map_snd] at hspans
  exact absurd (hspans.nodup List.nodup_range') (by simp [Symbol.span?])

/-- **A shielded section is not left** once the conditionals are resolved. -/
theorem not_mem_remaining {fields : Condition.Fields} {t : Text} {s : Span} {index : Nat}
    (h : Shielded fields t s index) : .span s index ∉ remaining fields t := by
  refine Nesting.Hidden.not_mem_keep h ?_
  rw [symbolPieces, Nesting.flatten_pairUp]
  exact not_duplicate_span t s index

/-! ## Nothing to repeat over in a text -/

theorem not_fails_fillSymbol (x : Symbol) :
    ¬ (fillSymbol settings c x).Fails (.missingSection label lack) := by
  cases x with
  | span s index => simp [fillSymbol]
  | token k =>
    cases k with
    | char ch => simp [fillSymbol]
    | marker inner => simp [fillSymbol, Field.not_fails_replace]

/-- A section that is put together was left among the symbols. -/
theorem span_mem_of_gives {xs : List Symbol} {filled : List Filled}
    (h : (xs.mapM (fillSymbol settings c)).Gives filled) {s : Span} {index : Nat}
    (hs : .span s index ∈ filled) : .span s index ∈ xs := by
  obtain ⟨x, hx, hg⟩ := Merging.exists_of_forall₂ (Merging.gives_mapM_iff.1 h).flip hs
  cases x with
  | span s' index' =>
    obtain ⟨rfl, rfl⟩ := Filled.span.inj (Merging.gives_pure_iff.1 hg)
    exact hx
  | token k =>
    cases k with
    | char ch => cases Merging.gives_pure_iff.1 hg
    | marker inner =>
      obtain ⟨v, -, hf⟩ := Merging.gives_bind_iff.1 hg
      cases Merging.gives_pure_iff.1 hf

theorem exists_fails_of_renderNumbered {xs : List Symbol}
    (h : (renderNumbered settings c nested xs).Fails (.missingSection label lack)) :
    ∃ s index, .span s index ∈ xs ∧
      (renderSpan settings c nested s).Fails (.missingSection label lack) := by
  rw [renderNumbered] at h
  rcases Merging.fails_bind_iff.1 h with h | ⟨filled, hfilled, h⟩
  · obtain ⟨_, x, _, -, -, hx⟩ := Merging.fails_mapM_iff.1 h
    exact absurd hx (not_fails_fillSymbol x)
  · obtain ⟨before, f, after, rfl, -, hf⟩ := Merging.fails_mapM_iff.1 (Merging.fails_map_iff.1 h)
    cases f with
    | text x => exact absurd hf (Merging.not_fails_pure x _)
    | span s index =>
      refine ⟨s, index, span_mem_of_gives hfilled (by simp), ?_⟩
      rcases Merging.fails_bind_iff.1 hf with hf | ⟨_, -, hf⟩
      · simp at hf
      · exact hf

/-- **Rendering a text lacks records only where a section does** that is left in it. -/
theorem exists_fails_of_render {t : Text} (ht : Span.placeholderStart ∉ t)
    (hv : NoPlaceholderIn settings c t)
    (h : (render settings c nested t).Fails (.missingSection label lack)) :
    ∃ s index, .span s index ∈ remaining c.resolve t ∧
      (renderSpan settings c nested s).Fails (.missingSection label lack) := by
  obtain ⟨x, hx⟩ := render_eq_numbered nested ht hv
  rw [hx] at h
  rcases Merging.fails_bind_iff.1 h with h | ⟨_, -, h⟩
  · simp at h
  rcases Merging.fails_bind_iff.1 h with h | ⟨ws, -, h⟩
  · simp at h
  by_cases hd : Nesting.depth (symbolPieces t) ≤ settings.maxPasses.toNat
  · rw [if_pos hd] at h
    rcases Merging.fails_bind_iff.1 h with h | ⟨_, -, h⟩
    · simp at h
    · exact exists_fails_of_renderNumbered h
  · rw [if_neg hd] at h
    simp at h

/-! ## Nothing to repeat over in a paragraph -/

/-- **A paragraph lacks records only where a section does** that is left in it, if no section of it
goes on after it. -/
theorem exists_fails_of_expandBlocks {p : Paragraph} {after : List Node}
    (hp : extent (.paragraph p :: after) = 0) (ht : Span.placeholderStart ∉ p.text)
    (hv : NoPlaceholderIn settings c p.text)
    (h : (expandBlocks settings c nested (.paragraph p :: after)).Fails (.missingSection label lack)) :
    (∃ s index, .span s index ∈ remaining c.resolve p.text ∧
      (renderSpan settings c nested s).Fails (.missingSection label lack)) ∨
    (expandBlocks settings c nested after).Fails (.missingSection label lack) := by
  have hafter : ∀ x : Merging PendingImage (List Node), ¬ x.Fails (.missingSection label lack) →
      (x.followedBy (expandBlocks settings c nested after)).Fails (.missingSection label lack) →
        (expandBlocks settings c nested after).Fails (.missingSection label lack) := by
    intro x hx hf
    rcases Merging.fails_followedBy_iff.1 hf with hf | ⟨-, hf⟩
    · exact absurd hf hx
    · exact hf
  rw [extent] at hp
  rw [expandBlocks] at h
  cases ho : firstOpener? p.text with
  | none =>
    rw [ho] at h
    exact .inr (hafter _ (by simp) h)
  | some opener =>
    rw [ho] at h hp
    dsimp only at h hp
    cases hc : blockSection? opener (.paragraph p :: after) with
    | none =>
      rw [hc] at h
      rcases Merging.fails_bind_iff.1 h with h | ⟨_, -, h⟩
      · exact absurd h (Merging.not_fails_report _ _ _ _)
      · exact .inr (hafter _ (by simp) h)
    | some r =>
      obtain ⟨count, closer⟩ := r
      obtain rfl : count = 0 := by simpa [hc] using hp
      rw [hc] at h
      rcases Merging.fails_followedBy_iff.1 h with h | ⟨-, h⟩
      · have hrender : (render settings c nested p.text).Fails (.missingSection label lack) := by
          simpa [renderParagraph, Merging.here] using h
        exact .inl (exists_fails_of_render ht hv hrender)
      · exact .inr h

/-! ## Nothing to repeat over in a row -/

variable {opener : Marker}

theorem exists_gives_rowSection {ι : Type} (opener : Marker) (texts : List Text) :
    ∃ q, (rowSection opener texts : Merging ι (Nat × Option Marker)).Gives q := by
  unfold rowSection
  split
  · exact ⟨_, Merging.gives_pure_iff.2 rfl⟩
  · exact ⟨_, Merging.gives_bind_iff.2 ⟨(), Merging.gives_report_iff.2 rfl, Merging.gives_pure_iff.2 rfl⟩⟩

theorem fails_expandRows {α : Type} {node : α → Node} {xs : List α} {above : List Node} {row : Node}
    {below : List Node} (hx : xs.map node = above ++ row :: below)
    (ha : ∀ r ∈ above, rowOpener? r = none) (ho : rowOpener? row = some opener) {e : MergeError}
    (h : (Section.records settings opener c nested : Merging PendingImage (List Value)).Fails e) :
    (expandRows settings c nested node xs).Fails e := by
  induction above generalizing xs with
  | nil =>
    obtain ⟨x, xs, rfl, rfl, -⟩ := List.map_eq_cons_iff.1 hx
    rw [expandRows, ho]
    obtain ⟨q, hq⟩ := exists_gives_rowSection (ι := PendingImage) opener
      ((x :: xs).map fun x => (node x).text)
    have hrows : (renderRows settings c nested opener q.2 ((x :: xs.take q.1).map node)).Fails e :=
      Merging.fails_bind_iff.2 (.inl h)
    exact Merging.fails_bind_iff.2 (.inr ⟨q, hq, Merging.fails_bind_iff.2 (.inl hrows)⟩)
  | cons r above ih =>
    obtain ⟨x, xs, rfl, rfl, hxs⟩ := List.map_eq_cons_iff.1 hx
    have ih := ih hxs fun r' hr => ha r' (List.mem_cons_of_mem _ hr)
    rw [expandRows, ha _ List.mem_cons_self]
    simpa using ih

/-- **The section that a row opens is bound before the row is looked into.** If it has nothing to
repeat over, the table ends with that error, whatever stands around the section in the row. -/
theorem fails_expandTable {above : List Node} {row : Node} {below : List Node}
    (ha : ∀ r ∈ above, rowOpener? r = none) (ho : rowOpener? row = some opener) {e : MergeError}
    (h : (Section.records settings opener c nested : Merging PendingImage (List Value)).Fails e) :
    (expandTable settings c nested (above ++ row :: below)).Fails e := by
  have hrows := List.attach_map_subtype_val (above ++ row :: below)
  rw [expandTable]
  exact Merging.fails_bind_iff.2 (.inl (fails_expandRows hrows ha ho h))

end MailMerge.Section
