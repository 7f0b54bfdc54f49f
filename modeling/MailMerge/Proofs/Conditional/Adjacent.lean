import MailMerge.Proofs.Conditional.Innermost
import MailMerge.Proofs.Marker.Scanned
import MailMerge.Proofs.Merge.Results

/-!
# Innermost conditionals as neighbours

Of the markers that open or end a conditional, two neighbours make an innermost conditional just if the
first one opens and the second one ends. The scan keeps a stack of open conditionals instead, and for
each of them whether another one was opened inside. Only the top of the stack can be innermost still,
and the markers read since it was opened are its dividers. So the two ways agree, also where markers
have no partner.

**`innermost_adjacent`**: the innermost conditionals are these neighbours, with all that is between
them.
-/

namespace MailMerge.Conditional

variable {o m : Marker} {ms es : List Marker}

/-! ## Neighbours -/

/-- The neighbours of which the first one opens a conditional and the second one ends one. -/
def opensThenEnds (es : List Marker) : List (Marker × Marker) :=
  (es.zip es.tail).filter fun (m, next) => m.kind = .ifStart && next.kind = .ifEnd

/-- The marker opens a conditional or ends one. -/
def isBound (m : Marker) : Bool :=
  m.kind = .ifStart || m.kind = .ifEnd

/-- The `IF` markers whose next marker among `IF` and `/IF` is an `/IF`, each with that one. -/
def adjacentEnds (ms : List Marker) : List (Marker × Marker) :=
  opensThenEnds (ms.filter isBound)

theorem opensThenEnds_cons_cons (o m : Marker) (es : List Marker) :
    opensThenEnds (o :: m :: es) =
      (if o.kind = .ifStart ∧ m.kind = .ifEnd then [(o, m)] else []) ++ opensThenEnds (m :: es) := by
  show List.filter _ ((o, m) :: (m :: es).zip es) = _
  rw [List.filter_cons]
  by_cases h : o.kind = .ifStart ∧ m.kind = .ifEnd
  · rw [if_pos (by simp [h]), if_pos h]
    rfl
  · rw [if_neg (by simpa using h), if_neg h]
    rfl

theorem opensThenEnds_of_not_opens (h : o.kind ≠ .ifStart) (es : List Marker) :
    opensThenEnds (o :: es) = opensThenEnds es := by
  cases es with
  | nil => rfl
  | cons m es =>
    rw [opensThenEnds_cons_cons, if_neg (fun hk => h hk.1)]
    rfl

theorem mem_opensThenEnds {p : Marker × Marker} (h : p ∈ opensThenEnds es) :
    p.1 ∈ es ∧ p.1.kind = .ifStart := by
  obtain ⟨hmem, hkinds⟩ := List.mem_filter.1 h
  rw [Bool.and_eq_true, decide_eq_true_eq, decide_eq_true_eq] at hkinds
  exact ⟨(List.of_mem_zip hmem).1, hkinds.1⟩

/-- Neighbours follow each other where the markers do. -/
theorem pairwise_opensThenEnds (h : es.Pairwise fun m m' => m.stop ≤ m'.start) :
    (opensThenEnds es).Pairwise fun p q => p.2.stop ≤ q.1.start := by
  induction es with
  | nil => exact .nil
  | cons o es ih =>
    have hrest := ih h.of_cons
    cases es with
    | nil => exact .nil
    | cons m es =>
      rw [opensThenEnds_cons_cons]
      by_cases hk : o.kind = .ifStart ∧ m.kind = .ifEnd
      · rw [if_pos hk, List.singleton_append]
        refine .cons (fun q hq => ?_) hrest
        obtain ⟨hmem, hopens⟩ := mem_opensThenEnds hq
        rcases List.mem_cons.1 hmem with he | hmem
        · rw [he, hk.2] at hopens
          cases hopens
        · exact List.rel_of_pairwise_cons h.of_cons hmem
      · rw [if_neg hk, List.nil_append]
        exact hrest

theorem isBound_of_opens (h : m.kind = .ifStart) : isBound m := by
  simp [isBound, h]

theorem isBound_of_closes (h : m.kind = .ifEnd) : isBound m := by
  simp [isBound, h]

theorem adjacentEnds_divides (h : kindRole m.kind = .divides) (front ms : List Marker) :
    adjacentEnds (front ++ m :: ms) = adjacentEnds (front ++ ms) := by
  have hm : ¬ isBound m := by
    cases hk : m.kind <;> simp [hk, kindRole] at h <;> simp [isBound, hk]
  rw [adjacentEnds, List.filter_append, List.filter_cons_of_neg hm, ← List.filter_append]
  rfl

/-- What ends a conditional makes no pair with what comes after it. -/
theorem adjacentEnds_closes (h : m.kind = .ifEnd) (ms : List Marker) :
    adjacentEnds (m :: ms) = adjacentEnds ms := by
  rw [adjacentEnds, List.filter_cons_of_pos (isBound_of_closes h),
    opensThenEnds_of_not_opens (by rw [h]; decide)]
  rfl

theorem adjacentEnds_opens_opens (ho : o.kind = .ifStart) (hm : m.kind = .ifStart)
    (ms : List Marker) : adjacentEnds (o :: m :: ms) = adjacentEnds (m :: ms) := by
  rw [adjacentEnds, adjacentEnds, List.filter_cons_of_pos (isBound_of_opens ho),
    List.filter_cons_of_pos (isBound_of_opens hm), opensThenEnds_cons_cons,
    if_neg (by rw [hm]; simp), List.nil_append]

theorem adjacentEnds_opens_closes (ho : o.kind = .ifStart) (hm : m.kind = .ifEnd)
    (ms : List Marker) : adjacentEnds (o :: m :: ms) = (o, m) :: adjacentEnds ms := by
  rw [← adjacentEnds_closes hm ms, adjacentEnds, adjacentEnds,
    List.filter_cons_of_pos (isBound_of_opens ho), List.filter_cons_of_pos (isBound_of_closes hm),
    opensThenEnds_cons_cons, if_pos ⟨ho, hm⟩]
  rfl

/-! ## Branches in the text -/

/-- The conditions of branches are those of the markers that begin them. -/
theorem map_condition_branches (t : Text) (stop : Nat) (heads : List Marker) :
    (branches t stop heads).map (·.condition) = heads.map headCondition := by
  induction heads with
  | nil => rfl
  | cons m heads ih =>
    cases heads with
    | nil => rfl
    | cons next heads =>
      rw [branches, List.map_cons, ih]
      rfl

/-- The contents of branches reach from the marker that begins one up to the next marker. -/
theorem map_content_branches (t : Text) (closer : Marker) (m : Marker) (dividers : List Marker) :
    (branches t closer.start (m :: dividers)).map (·.content) =
      List.zipWith (fun m next => Text.slice t m.stop next.start) (m :: dividers)
        (dividers ++ [closer]) := by
  induction dividers generalizing m with
  | nil => rfl
  | cons next dividers ih => rw [branches, List.map_cons, ih, List.cons_append, List.zipWith_cons_cons]

/-- The markers stand in the text in this order. -/
structure Laid (t : Text) (ms : List Marker) : Prop where
  pairwise : ms.Pairwise fun m m' => m.stop ≤ m'.start
  place : ∀ m ∈ ms, m.start < m.stop ∧ m.stop ≤ t.length ∧ Text.slice t m.start m.stop = m.text

theorem Laid.sublist {t : Text} {ms ms' : List Marker} (h : Laid t ms) (hs : ms'.Sublist ms) :
    Laid t ms' :=
  ⟨h.pairwise.sublist hs, fun m hm => h.place m (hs.subset hm)⟩

theorem laid_scan (t : Text) : Laid t (Marker.scan t) :=
  ⟨Marker.pairwise_scan t, fun m hm => ((Marker.cutAt_scan t).forall_mem m hm).2⟩

/-- The markers and the contents of the branches, in turn, make up the conditional. -/
theorem flatten_branches {t : Text} {m closer : Marker} {dividers : List Marker}
    (h : Laid t (m :: dividers ++ [closer])) :
    (List.zipWith (· ++ ·) ((m :: dividers).map (·.text))
        ((branches t closer.start (m :: dividers)).map (·.content))).flatten ++ closer.text =
      Text.slice t m.start closer.stop := by
  obtain ⟨hlt, -, htext⟩ := h.place m (by simp)
  induction dividers generalizing m with
  | nil =>
    obtain ⟨hlt', hle', htext'⟩ := h.place closer (by simp)
    have hle : m.stop ≤ closer.start := List.rel_of_pairwise_cons h.pairwise (by simp)
    calc
      _ = m.text ++ Text.slice t m.stop closer.start ++ closer.text :=
        congrArg (· ++ closer.text) (List.append_nil _)
      _ = Text.slice t m.start closer.stop := by
        rw [← htext, ← htext', Text.slice_append_slice (by omega) hle (by omega),
          Text.slice_append_slice (by omega) (by omega) hle']
  | cons next dividers ih =>
    have hrest : Laid t (next :: dividers ++ [closer]) := h.sublist (List.sublist_cons_self _ _)
    obtain ⟨hlt', -, htext'⟩ := hrest.place next (by simp)
    obtain ⟨hltc, hle', -⟩ := hrest.place closer (by simp)
    have hle : m.stop ≤ next.start := List.rel_of_pairwise_cons h.pairwise (by simp)
    have hend : next.stop ≤ closer.start := List.rel_of_pairwise_cons hrest.pairwise (by simp)
    calc
      _ = m.text ++ Text.slice t m.stop next.start ++ Text.slice t next.start closer.stop := by
        rw [← ih hrest hlt' htext', ← List.append_assoc]
        rfl
      _ = Text.slice t m.start closer.stop := by
        rw [← htext, Text.slice_append_slice (by omega) hle (by omega),
          Text.slice_append_slice (by omega) (by omega) hle']

/-! ## The conditionals as they are written -/

/-- The conditional is written with these markers, which follow each other among the conditional
markers of the text. Its branches begin at the first marker and at the dividers and reach up to the
next marker; those of an `ELSE` have no condition. -/
structure IsOutline (t : Text) (opener : Marker) (dividers : List Marker) (closer : Marker)
    (b : Block) : Prop where
  markers : opener :: dividers ++ [closer] <:+: Marker.scanFor Marker.Kind.isConditional t
  opens : opener.kind = .ifStart
  divides : ∀ m ∈ dividers, m.kind = .elseIf ∨ m.kind = .otherwise
  closes : closer.kind = .ifEnd
  start : b.start = opener.start
  stop : b.stop = closer.stop
  conditions : b.branches.map (·.condition) =
    (opener :: dividers).map fun m => if m.kind = .otherwise then none else some m.argument
  contents : b.branches.map (·.content) =
    List.zipWith (fun m next => Text.slice t m.stop next.start) (opener :: dividers)
      (dividers ++ [closer])
  text : (List.zipWith (· ++ ·) ((opener :: dividers).map (·.text))
      (b.branches.map (·.content))).flatten ++ closer.text = Text.slice t b.start b.stop

theorem isOutline_close {t : Text} {f : Frame} {closer : Marker}
    (h : f.opener :: f.dividers.reverse ++ [closer] <:+:
      Marker.scanFor Marker.Kind.isConditional t)
    (ho : f.opener.kind = .ifStart) (hd : ∀ m ∈ f.dividers, kindRole m.kind = .divides)
    (hc : closer.kind = .ifEnd) :
    IsOutline t f.opener f.dividers.reverse closer (f.close t closer) where
  markers := h
  opens := ho
  divides m hm := by
    have hrole := hd m (List.mem_reverse.1 hm)
    cases hk : m.kind <;> simp [hk, kindRole] at hrole ⊢
  closes := hc
  start := rfl
  stop := rfl
  conditions := map_condition_branches t closer.start _
  contents := map_content_branches t closer f.opener f.dividers.reverse
  text := flatten_branches ((laid_scan t).sublist (h.sublist.trans List.filter_sublist))

/-! ## The stack -/

/-- The marker that the next one may end the innermost conditional of: the opener on top of the stack,
unless another one was opened inside. -/
def pending : List Frame → List Marker
  | [] => []
  | f :: _ => if f.nested then [] else [f.opener]

/-- The frames that are open before the rest of some markers. Under the top of the stack all hold other
conditionals. The markers of one that holds none go on with the rest. -/
structure Running (all : List Marker) (frames : List Frame) (ms : List Marker) : Prop where
  opens : ∀ f ∈ frames, f.opener.kind = .ifStart
  divides : ∀ f ∈ frames, ∀ m ∈ f.dividers, kindRole m.kind = .divides
  nested : ∀ f ∈ frames.tail, f.nested = true
  markers : ∀ f ∈ frames, f.nested = false → f.opener :: f.dividers.reverse ++ ms <:+ all
  rest : ms <:+ all

namespace Running

variable {all : List Marker} {f : Frame} {frames : List Frame}

theorem opened (h : Running all frames (m :: ms)) (hm : m.kind = .ifStart) :
    Running all ({ opener := m } :: nest frames) ms := by
  have hnest : ∀ f ∈ nest frames, f.nested = true ∧
      ∃ f' ∈ frames, f.opener = f'.opener ∧ f.dividers = f'.dividers := by
    cases frames with
    | nil => simp [nest]
    | cons f frames =>
      rw [nest, List.forall_mem_cons]
      exact ⟨⟨rfl, f, List.mem_cons_self, rfl, rfl⟩, fun f' hf' =>
        ⟨h.nested f' hf', f', List.mem_cons_of_mem f hf', rfl, rfl⟩⟩
  constructor
  case opens =>
    rw [List.forall_mem_cons]
    refine ⟨hm, fun f hf => ?_⟩
    obtain ⟨-, f', hf', he, -⟩ := hnest f hf
    rw [he]
    exact h.opens f' hf'
  case divides =>
    rw [List.forall_mem_cons]
    refine ⟨by simp, fun f hf => ?_⟩
    obtain ⟨-, f', hf', -, he⟩ := hnest f hf
    rw [he]
    exact h.divides f' hf'
  case nested => exact fun f hf => (hnest f hf).1
  case markers =>
    rw [List.forall_mem_cons]
    refine ⟨fun _ => h.rest, fun f hf hn => ?_⟩
    rw [(hnest f hf).1] at hn
    cases hn
  case rest => exact (List.suffix_cons m ms).trans h.rest

theorem divided (h : Running all (f :: frames) (m :: ms)) (hm : kindRole m.kind = .divides) :
    Running all ({ f with dividers := m :: f.dividers } :: frames) ms := by
  constructor
  case opens => exact List.forall_mem_cons.2 (List.forall_mem_cons.1 h.opens)
  case divides =>
    obtain ⟨hf, hframes⟩ := List.forall_mem_cons.1 h.divides
    exact List.forall_mem_cons.2 ⟨List.forall_mem_cons.2 ⟨hm, hf⟩, hframes⟩
  case nested => exact h.nested
  case markers =>
    rw [List.forall_mem_cons]
    refine ⟨fun hn => ?_, fun f' hf' hn => ?_⟩
    · have := h.markers f List.mem_cons_self hn
      simpa using this
    · rw [h.nested f' hf'] at hn
      cases hn
  case rest => exact (List.suffix_cons m ms).trans h.rest

/-- When the top of the stack is ended, what is left holds other conditionals. -/
theorem closed (h : Running all (f :: frames) (m :: ms)) :
    (∀ f' ∈ frames, f'.nested = true) ∧ Running all frames ms := by
  have hnested : ∀ f' ∈ frames, f'.nested = true := h.nested
  refine ⟨hnested, ?_⟩
  constructor
  case opens => exact (List.forall_mem_cons.1 h.opens).2
  case divides => exact (List.forall_mem_cons.1 h.divides).2
  case nested => exact fun f' hf' => hnested f' (List.mem_of_mem_tail hf')
  case markers =>
    intro f' hf' hn
    rw [hnested f' hf'] at hn
    cases hn
  case rest => exact (List.suffix_cons m ms).trans h.rest

theorem passed (h : Running all [] (m :: ms)) : Running all [] ms where
  opens := by simp
  divides := by simp
  nested := by simp
  markers := by simp
  rest := (List.suffix_cons m ms).trans h.rest

end Running

theorem pending_of_nested {frames : List Frame} (h : ∀ f ∈ frames, f.nested = true) :
    pending frames = [] := by
  cases frames with
  | nil => rfl
  | cons f frames => exact if_pos (h f List.mem_cons_self)

theorem adjacentEnds_pending (frames : List Frame) : adjacentEnds (pending frames) = [] := by
  cases frames with
  | nil => rfl
  | cons f frames =>
    rw [pending]
    split
    · rfl
    · cases hb : isBound f.opener <;> simp [adjacentEnds, opensThenEnds, hb]

/-- An opener that follows makes no innermost conditional of one that is open. -/
theorem adjacentEnds_pending_opens {frames : List Frame} (h : ∀ f ∈ frames, f.opener.kind = .ifStart)
    (hm : m.kind = .ifStart) (ms : List Marker) :
    adjacentEnds (pending frames ++ m :: ms) = adjacentEnds (m :: ms) := by
  cases frames with
  | nil => rfl
  | cons f frames =>
    rw [pending]
    split
    · rfl
    · exact adjacentEnds_opens_opens (h f List.mem_cons_self) hm ms

/-- **The scan finds the neighbours**: the conditionals that it finds from a stack on are those of the
opener on top and of the markers that follow. -/
theorem forall₂_innermostFrom {t : Text} {frames : List Frame} {ms : List Marker}
    (h : Running (Marker.scanFor Marker.Kind.isConditional t) frames ms) :
    List.Forall₂ (fun b p => ∃ dividers, IsOutline t p.1 dividers p.2 b)
      (innermostFrom t frames ms) (adjacentEnds (pending frames ++ ms)) := by
  -- On the markers that are left. Under the top the stack is nested, so `pending` is all that counts of it.
  induction ms generalizing frames with
  | nil =>
    rw [List.append_nil, adjacentEnds_pending]
    cases frames <;> exact .nil
  | cons m ms ih =>
    have hrole : kindRole m.kind ≠ .plain := by
      rw [← isConditional_iff]
      exact (List.mem_filter.1 (h.rest.subset List.mem_cons_self)).2
    cases hr : kindRole m.kind with
    | plain => exact absurd hr hrole
    | opens =>
      have hm : m.kind = .ifStart := by
        cases hk : m.kind <;> simp [hk, kindRole] at hr ⊢
      rw [innermostFrom_opens hr, adjacentEnds_pending_opens h.opens hm]
      exact ih (h.opened hm)
    | divides =>
      rw [adjacentEnds_divides hr]
      cases frames with
      | nil =>
        rw [innermostFrom_nil_cons (by rw [hr]; decide)]
        exact ih h.passed
      | cons f frames =>
        rw [innermostFrom_divides hr]
        exact ih (h.divided hr)
    | closes =>
      have hm : m.kind = .ifEnd := by
        cases hk : m.kind <;> simp [hk, kindRole] at hr ⊢
      cases frames with
      | nil =>
        rw [innermostFrom_nil_cons (by rw [hr]; decide), pending, List.nil_append,
          adjacentEnds_closes hm]
        exact ih h.passed
      | cons f frames =>
        obtain ⟨hnested, hrest⟩ := h.closed
        have hi := ih hrest
        rw [pending_of_nested hnested, List.nil_append] at hi
        rw [innermostFrom_closes hr, pending]
        cases hn : f.nested with
        | true =>
          -- The end of the conditional inside came last, and after an end this one makes no pair.
          rw [if_pos rfl, if_pos rfl, List.nil_append, adjacentEnds_closes hm]
          exact hi
        | false =>
          have ho := h.opens f List.mem_cons_self
          rw [if_neg (by decide), if_neg (by decide), List.singleton_append,
            adjacentEnds_opens_closes ho hm]
          refine .cons ⟨_, isOutline_close ?_ ho (h.divides f List.mem_cons_self) hm⟩ hi
          obtain ⟨before, he⟩ := h.markers f List.mem_cons_self hn
          exact ⟨before, ms, by rw [← he]; simp⟩

/-! ## Innermost conditionals -/

theorem adjacentEnds_scanFor (t : Text) :
    adjacentEnds (Marker.scanFor Marker.Kind.isConditional t) = adjacentEnds (Marker.scan t) := by
  rw [adjacentEnds, adjacentEnds, Marker.scanFor, List.filter_filter]
  refine congrArg opensThenEnds (List.filter_congr fun m _ => ?_)
  cases hk : m.kind <;> simp [isBound, hk, Marker.Kind.isConditional]

/-- **The innermost conditionals of a text** are, from left to right, those from an `IF` to the `/IF`
that is its next marker among `IF` and `/IF`. They follow each other, and each is made up of its markers
and the contents of its branches. -/
theorem innermost_adjacent (t : Text) :
    (innermost t).map (fun b => (b.start, b.stop)) =
      (adjacentEnds (Marker.scan t)).map (fun (opener, closer) => (opener.start, closer.stop)) ∧
    (innermost t).Pairwise (fun b b' => b.stop ≤ b'.start) ∧
    ∀ b ∈ innermost t, ∃ opener dividers closer,
      (opener, closer) ∈ adjacentEnds (Marker.scan t) ∧ IsOutline t opener dividers closer b := by
  have hrun : Running (Marker.scanFor Marker.Kind.isConditional t) []
      (Marker.scanFor Marker.Kind.isConditional t) :=
    ⟨by simp, by simp, by simp, by simp, List.suffix_refl _⟩
  have h := forall₂_innermostFrom hrun
  rw [pending, List.nil_append, adjacentEnds_scanFor] at h
  change List.Forall₂ _ (innermost t) _ at h
  have hmap : (adjacentEnds (Marker.scan t)).map (fun (o, c) => (o.start, c.stop)) =
      (innermost t).map fun b => (b.start, b.stop) :=
    Merging.map_eq_of_forall₂ h fun b p ⟨_, ho⟩ => by rw [ho.start, ho.stop]
  refine ⟨hmap.symm, ?_, fun b hb => ?_⟩
  · have hpairs := pairwise_opensThenEnds ((Marker.pairwise_scan t).sublist
      (List.filter_sublist (p := isBound)))
    have hplaces : ((innermost t).map fun b => (b.start, b.stop)).Pairwise
        fun p q => p.2 ≤ q.1 := by
      rw [← hmap, List.pairwise_map]
      exact hpairs
    exact List.pairwise_map.1 hplaces
  · obtain ⟨⟨opener, closer⟩, hp, dividers, ho⟩ := Merging.exists_of_forall₂ h hb
    exact ⟨opener, dividers, closer, hp, ho⟩

/-- An `IF` without an end keeps the stray `ELSE` behind it, and the conditional after that is found. -/
example :
    let t : Text := Marker.enclose "IF a" ++ Marker.enclose "ELSE" ++ Marker.enclose "IF b" ++ "x" ++
      Marker.enclose "ELSE" ++ "y" ++ Marker.enclose "/IF"
    ((innermost t).map fun b => (b.start, b.stop, b.branches)) =
      [(16, 41, [⟨some "b", "x"⟩, ⟨none, "y"⟩])] := by
  decide +kernel

end MailMerge.Conditional
