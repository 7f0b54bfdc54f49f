import MailMerge.Proofs.Section.Spans
import MailMerge.Section.Expansion

/-!
# The search for sections

Behind an opening marker the number of sections of its name that are open goes up at each opener and
down at each closer. The section ends at the first marker where this depth is zero. The depth can be
carried from one list of markers to the next, so rows and sibling paragraphs are searched one after
another.

The sections of a text are found in rounds. A round takes the first opener from an offset on. The next
round begins behind the section, with the newline that belongs to it, or behind an opener that is never
closed. Each round moves forward, so the rounds come to an end.

**`findCloser_carries`**: the search for the end of a section goes on from list to list.

**`find_searches`**: the sections of a text are those that the rounds find, and every opener outside
them is reported.
-/

namespace MailMerge.Section

variable {opener closer : Marker} {d : Int} {ms : List Marker}

/-! ## The depth -/

/-- How many more openers than closers of the section there are among markers. -/
def balance (opener : Marker) (ms : List Marker) : Int :=
  (ms.countP (·.opensLike opener) : Int) - (ms.countP (·.closes opener) : Int)

@[simp] theorem balance_nil (opener : Marker) : balance opener [] = 0 := rfl

@[simp] theorem balance_append (opener : Marker) (xs ys : List Marker) :
    balance opener (xs ++ ys) = balance opener xs + balance opener ys := by
  simp only [balance, List.countP_append]
  omega

theorem balance_cons (opener m : Marker) (ms : List Marker) :
    balance opener (m :: ms) = balance opener [m] + balance opener ms :=
  balance_append opener [m] ms

theorem balance_of_opensLike {m : Marker} (h : m.opensLike opener) : balance opener [m] = 1 := by
  have hc : m.closes opener = false := by
    rw [Marker.opensLike, Bool.and_eq_true, beq_iff_eq] at h
    simp [Marker.closes, h.1]
  simp [balance, h, hc]

theorem balance_of_closes {m : Marker} (h : m.closes opener) : balance opener [m] = -1 := by
  have ho : m.opensLike opener = false := by
    rw [Marker.closes, Bool.and_eq_true, Bool.and_eq_true, beq_iff_eq] at h
    simp [Marker.opensLike, h.1.1]
  simp [balance, h, ho]

theorem balance_of_other {m : Marker} (ho : ¬ m.opensLike opener) (hc : ¬ m.closes opener) :
    balance opener [m] = 0 := by
  simp [balance, ho, hc]

/-- One marker changes the depth by one at most. -/
theorem neg_one_le_balance (opener m : Marker) : -1 ≤ balance opener [m] := by
  by_cases ho : m.opensLike opener
  · have := balance_of_opensLike ho
    omega
  · by_cases hc : m.closes opener
    · exact Int.le_of_eq (balance_of_closes hc).symm
    · have := balance_of_other ho hc
      omega

/-- **What one marker does to the search.** -/
theorem findCloser_cons (hd : 1 ≤ d) (m : Marker) (ms : List Marker) :
    findCloser opener d (m :: ms) =
      if d + balance opener [m] = 0 then (some m, 0)
      else findCloser opener (d + balance opener [m]) ms := by
  rw [findCloser]
  by_cases ho : m.opensLike opener
  · rw [if_pos ho, balance_of_opensLike ho, if_neg (by omega)]
  · by_cases hc : m.closes opener
    · rw [if_neg ho, if_pos hc, balance_of_closes hc]
      rfl
    · rw [if_neg ho, if_neg hc, balance_of_other ho hc, Int.add_zero, if_neg (by omega)]

/-! ## The end of a section -/

/-- The marker closes the section that is open so many times: there the depth is zero, and nowhere
before. -/
def ClosesFirst (opener : Marker) (depth : Int) (ms : List Marker) (closer : Marker) : Prop :=
  ∃ before after, ms = before ++ closer :: after ∧
    depth + balance opener (before ++ [closer]) = 0 ∧
    ∀ front, front <+: before → depth + balance opener front ≠ 0

theorem closesFirst_cons_of_zero {m : Marker} (hd : 1 ≤ d) (hz : d + balance opener [m] = 0) :
    ClosesFirst opener d (m :: ms) closer ↔ m = closer := by
  constructor
  · rintro ⟨before, after, he, -, hfront⟩
    cases before with
    | nil => exact (List.cons.inj he).1
    | cons x before =>
      obtain ⟨rfl, -⟩ := List.cons.inj he
      exact absurd hz (hfront [m] ⟨before, rfl⟩)
  · rintro rfl
    refine ⟨[], ms, rfl, hz, fun front hf => ?_⟩
    rw [List.prefix_nil.1 hf, balance_nil]
    omega

theorem closesFirst_cons_of_ne {m : Marker} (hd : 1 ≤ d) (hz : d + balance opener [m] ≠ 0) :
    ClosesFirst opener d (m :: ms) closer ↔
      ClosesFirst opener (d + balance opener [m]) ms closer := by
  constructor
  · rintro ⟨before, after, he, hclose, hfront⟩
    cases before with
    | nil =>
      obtain ⟨rfl, -⟩ := List.cons.inj he
      exact absurd hclose hz
    | cons x before =>
      obtain ⟨rfl, rfl⟩ := List.cons.inj he
      refine ⟨before, after, rfl, ?_, fun front hf => ?_⟩
      · rw [List.cons_append, balance_cons] at hclose
        omega
      · have := hfront (m :: front) (List.cons_prefix_cons.2 ⟨rfl, hf⟩)
        rw [balance_cons] at this
        omega
  · rintro ⟨before, after, rfl, hclose, hfront⟩
    refine ⟨m :: before, after, rfl, ?_, fun front hf => ?_⟩
    · rw [List.cons_append, balance_cons]
      omega
    · cases front with
      | nil =>
        rw [balance_nil]
        omega
      | cons x front =>
        obtain ⟨rfl, hrest⟩ := List.cons_prefix_cons.1 hf
        have := hfront front hrest
        rw [balance_cons]
        omega

/-- **A section ends where the depth first is zero.** -/
theorem findCloser_eq_some_iff (hd : 1 ≤ d) :
    (findCloser opener d ms).1 = some closer ↔ ClosesFirst opener d ms closer := by
  induction ms generalizing d with
  | nil => simp [findCloser, ClosesFirst]
  | cons m ms ih =>
    rw [findCloser_cons hd]
    have hle := neg_one_le_balance opener m
    by_cases hz : d + balance opener [m] = 0
    · rw [if_pos hz, closesFirst_cons_of_zero hd hz, Option.some_inj]
    · rw [if_neg hz, closesFirst_cons_of_ne hd hz, ih (by omega)]

/-- A section that is not closed yet is open at least once. -/
theorem depth_of_findCloser_eq_none (hd : 1 ≤ d) {d' : Int}
    (h : findCloser opener d ms = (none, d')) : d' = d + balance opener ms ∧ 1 ≤ d' := by
  induction ms generalizing d with
  | nil =>
    obtain rfl : d = d' := congrArg Prod.snd h
    exact ⟨(Int.add_zero d).symm, hd⟩
  | cons m ms ih =>
    rw [findCloser_cons hd] at h
    have hle := neg_one_le_balance opener m
    by_cases hz : d + balance opener [m] = 0
    · rw [if_pos hz] at h
      cases h
    · rw [if_neg hz] at h
      rw [balance_cons, ← Int.add_assoc]
      exact ih (by omega) h

/-! ## Lists of markers in turn -/

/-- **Lists searched in turn have the closer that they have as one list.** -/
theorem map_findCloserIn (opener : Marker) (d : Int) (lists : List (List Marker)) :
    (findCloserIn opener d lists).map Prod.snd = (findCloser opener d lists.flatten).1 := by
  induction lists generalizing d with
  | nil => rfl
  | cons ms rest ih =>
    rw [findCloserIn, List.flatten_cons, findCloser_append]
    obtain ⟨found, d'⟩ := findCloser opener d ms
    cases found with
    | some m => rfl
    | none =>
      show ((findCloserIn opener d' rest).map _).map Prod.snd = (findCloser opener d' rest.flatten).1
      rw [← ih, Option.map_map]
      rfl

/-- The closer stands in the first list up to which the search comes to an end. -/
theorem findCloserIn_eq_some_iff {lists : List (List Marker)} {i : Nat} :
    findCloserIn opener d lists = some (i, closer) ↔
      (findCloser opener d (lists.take i).flatten).1 = none ∧
      (findCloser opener d (lists.take (i + 1)).flatten).1 = some closer := by
  induction lists generalizing d i with
  | nil => simp [findCloserIn, findCloser]
  | cons ms rest ih =>
    rw [findCloserIn, List.take_succ_cons, List.flatten_cons, findCloser_append]
    cases i with
    | zero =>
      rw [List.take_zero, List.take_zero, List.flatten_nil]
      obtain ⟨found, d'⟩ := findCloser opener d ms
      cases found with
      | some m => simp [findCloser]
      | none => simp [findCloser]
    | succ i =>
      rw [List.take_succ_cons, List.flatten_cons, findCloser_append]
      obtain ⟨found, d'⟩ := findCloser opener d ms
      cases found with
      | some m => simp
      | none =>
        show ((findCloserIn opener d' rest).map _) = some (i + 1, closer) ↔ _
        rw [← ih (d := d')]
        simp

/-- The section markers of a text behind a marker. -/
def behind (opener : Marker) (t : Text) : List Marker :=
  (markersOf t).filter fun m => opener.start < m.start

/-- The section markers of texts, from a marker of the first one on. -/
def markersFrom (opener : Marker) : List Text → List Marker
  | [] => []
  | t :: ts => behind opener t ++ ts.flatMap markersOf

theorem closingText?_cons (opener : Marker) (t : Text) (ts : List Text) :
    closingText? opener (t :: ts) = findCloserIn opener 1 (behind opener t :: ts.map markersOf) :=
  rfl

/-- Text by text the closer is found that all markers in one list have. -/
theorem map_closingText? (opener : Marker) (ts : List Text) :
    (closingText? opener ts).map Prod.snd = (findCloser opener 1 (markersFrom opener ts)).1 := by
  cases ts with
  | nil => rfl
  | cons t ts => rw [closingText?_cons, map_findCloserIn, List.flatten_cons, ← List.flatMap_def]; rfl

theorem closingText?_eq_some_iff {ts : List Text} {i : Nat} :
    closingText? opener ts = some (i, closer) ↔
      (findCloser opener 1 (markersFrom opener (ts.take i))).1 = none ∧
      (findCloser opener 1 (markersFrom opener (ts.take (i + 1)))).1 = some closer := by
  cases ts with
  | nil => simp [closingText?, markersFrom, findCloser]
  | cons t ts =>
    have htake : ∀ j, ((behind opener t :: ts.map markersOf).take j).flatten =
        markersFrom opener ((t :: ts).take j) := by
      intro j
      cases j with
      | zero => rfl
      | succ j =>
        rw [List.take_succ_cons, List.take_succ_cons, List.flatten_cons, ← List.map_take,
          ← List.flatMap_def]
        rfl
    rw [closingText?_cons, findCloserIn_eq_some_iff, htake, htake]

theorem markersOf_nil : markersOf [] = [] := by
  rw [markersOf, Marker.scanFor, Marker.scan_eq_nil_iff.2 rfl]
  rfl

/-- Of sibling blocks, the paragraphs alone have markers to search. -/
theorem flatMap_markersOf_paragraphs (ns : List Node) :
    (ns.map fun n => n.paragraph?.elim [] (·.text)).flatMap markersOf =
      ((Node.paragraphsOf ns).map (·.text)).flatMap markersOf := by
  induction ns with
  | nil => rfl
  | cons n ns ih =>
    rw [List.map_cons, List.flatMap_cons, ih]
    cases n with
    | paragraph p rendered => rfl
    | _ =>
      show markersOf [] ++ _ = _
      rw [markersOf_nil]
      rfl

/-- **The search for the end of a section goes on from list to list.** What is found in the first list
is found, and otherwise the search goes on in the second one with the depth after the first. The
closer is the first marker at which the depth is zero. So the rows of a table and sibling paragraphs,
searched one after another, have the closer that a search over all their markers finds, in the first
row or block up to which there is one. -/
theorem findCloser_carries (opener : Marker) {d : Int} (hd : 1 ≤ d) (xs ys : List Marker) :
    (∀ closer d', findCloser opener d xs = (some closer, d') →
      findCloser opener d (xs ++ ys) = (some closer, d')) ∧
    (∀ d', findCloser opener d xs = (none, d') →
      1 ≤ d' ∧ d' = d + balance opener xs ∧
        findCloser opener d (xs ++ ys) = findCloser opener d' ys) ∧
    (∀ closer, (findCloser opener d xs).1 = some closer ↔ ClosesFirst opener d xs closer) ∧
    (∀ texts, (closingText? opener texts).map Prod.snd =
      (findCloser opener 1 (markersFrom opener texts)).1) ∧
    (∀ texts i closer, closingText? opener texts = some (i, closer) ↔
      (findCloser opener 1 (markersFrom opener (texts.take i))).1 = none ∧
      (findCloser opener 1 (markersFrom opener (texts.take (i + 1)))).1 = some closer) ∧
    (∀ p rendered ns, (blockSection? opener (.paragraph p rendered :: ns)).map Prod.snd =
      (findCloser opener 1
        (markersFrom opener (p.text :: (Node.paragraphsOf ns).map (·.text)))).1) := by
  refine ⟨fun closer d' h => ?_, fun d' h => ?_, fun closer => findCloser_eq_some_iff hd,
    map_closingText? opener, fun texts i closer => closingText?_eq_some_iff, fun p rendered ns => ?_⟩
  · rw [findCloser_append, h]
  · obtain ⟨heq, hle⟩ := depth_of_findCloser_eq_none hd h
    refine ⟨hle, heq, ?_⟩
    rw [findCloser_append, h]
  · rw [blockSection?, map_closingText?, List.map_cons, markersFrom, markersFrom,
      flatMap_markersOf_paragraphs]
    rfl

/-- The search ends in the third text: the first one opens the section again and closes that, the
second one holds a section over a named source and the end of one with another name. -/
theorem findCloser_carries_nested :
    let opener := Marker.ofInner "#A" 0
    let first := behind opener (Marker.enclose "#A" ++ Marker.enclose "#A" ++ Marker.enclose "#B" ++
      Marker.enclose "/A")
    let others := markersOf (Marker.enclose "/B" ++ Marker.enclose "@A" ++ Marker.enclose "/@A") ++
      markersOf (Marker.enclose "/A")
    (1 : Int) ≤ 1 ∧ findCloser opener 1 first = (none, 1) ∧
      findCloser opener 1 (first ++ others) = findCloser opener 1 others ∧
      ClosesFirst opener 1 (first ++ others) (Marker.ofInner "/A" 0) := by
  intro opener first others
  have hnone : findCloser opener 1 first = (none, 1) := by decide +kernel
  have hsome : (findCloser opener 1 (first ++ others)).1 = some (Marker.ofInner "/A" 0) := by
    decide +kernel
  refine ⟨by decide, hnone, ?_, ?_⟩
  · exact ((findCloser_carries opener (by decide) first others).2.1 1 hnone).2.2
  · exact ((findCloser_carries opener (by decide) (first ++ others) []).2.2.1 _).1 hsome

/-! ## Rounds -/

namespace Span

variable {t : Text} {offset next : Nat}

/-- The newline that belongs to the line of a closing marker, where the markers fill lines and the text
goes on. -/
def lineEnd (t : Text) (opener closer : Marker) : Text :=
  if opensLine t opener && closesLine t closer && closer.stop < t.length then ['\n'] else []

/-- What a round of the search comes to: a section, or an opener without an end. -/
inductive Found where
  | span (s : Span)
  | unclosed (opener : Marker)

/-- The sections among what rounds found. -/
def spansOf : List Found → List Span
  | [] => []
  | .span s :: xs => s :: spansOf xs
  | .unclosed _ :: xs => spansOf xs

/-- The openers without an end among what rounds found. -/
def unclosedOf : List Found → List Marker
  | [] => []
  | .span _ :: xs => unclosedOf xs
  | .unclosed opener :: xs => opener :: unclosedOf xs

/-- The marker starts a section, at an offset or behind it. -/
abbrev OpensFrom (offset : Nat) (m : Marker) : Prop :=
  m.kind = .sectionStart ∧ offset ≤ m.start

/-- A round of the search: what it finds for the first opener from an offset on, and the offset at
which the next round begins. -/
def round? (t : Text) (offset : Nat) : Option (Found × Nat) :=
  ((markersOf t).find? (OpensFrom offset ·)).map fun opener =>
    match (findCloser opener 1 (behind opener t)).1 with
    | some closer => (.span (between t opener closer), (between t opener closer).stop)
    | none => (.unclosed opener, opener.stop)

/-- A search from an offset on finds this, round after round, until there is no opener. -/
inductive Searches (t : Text) : (offset : Nat) → List Found → Prop
  | done {offset : Nat} (h : round? t offset = none) : Searches t offset []
  | next {offset next : Nat} {x : Found} {xs : List Found} (h : round? t offset = some (x, next))
      (rest : Searches t next xs) : Searches t offset (x :: xs)

/-! ## One round -/

theorem pairwise_markersOf (t : Text) :
    (markersOf t).Pairwise fun m m' => m.stop ≤ m'.start :=
  (Marker.pairwise_scan t).sublist List.filter_sublist

theorem place_of_mem_markersOf {m : Marker} (h : m ∈ markersOf t) :
    m.start < m.stop ∧ m.stop ≤ t.length := by
  obtain ⟨-, hlt, hle, -⟩ := (Marker.cutAt_scan t).forall_mem m (List.mem_filter.1 h).1
  exact ⟨hlt, hle⟩

/-- The markers behind one are those that follow it. -/
theorem behind_eq {before after : List Marker} {m : Marker}
    (h : markersOf t = before ++ m :: after) : behind m t = after := by
  have hsorted := pairwise_markersOf t
  rw [h, List.pairwise_append, List.pairwise_cons] at hsorted
  obtain ⟨-, ⟨hafter, -⟩, hbefore⟩ := hsorted
  have hplace : ∀ x ∈ before ++ m :: after, x.start < x.stop := fun x hx =>
    (place_of_mem_markersOf (h ▸ hx)).1
  have hm := hplace m (by simp)
  rw [behind, h, List.filter_append, List.filter_eq_nil_iff.2, List.nil_append,
    List.filter_cons_of_neg (by simp), List.filter_eq_self.2]
  · intro x hx
    have := hafter x hx
    simpa using by omega
  · intro x hx
    have := hplace x (by simp [hx])
    have := hbefore x hx m List.mem_cons_self
    simpa using by omega

theorem stop_between_eq (t : Text) (opener closer : Marker) :
    (between t opener closer).stop = closer.stop + (lineEnd t opener closer).length := by
  unfold between lineEnd
  dsimp only
  by_cases hline : (opensLine t opener && closesLine t closer) = true
  · rw [if_pos hline, hline, Bool.true_and]
    by_cases hlt : closer.stop < t.length
    · simp [hlt]
    · simp [hlt]
  · have hline : (opensLine t opener && closesLine t closer) = false := by simpa using hline
    simp [hline]

/-- What a span takes along behind its closing marker. -/
theorem slice_lineEnd (hle : closer.stop ≤ t.length) :
    Text.slice t closer.stop (between t opener closer).stop = lineEnd t opener closer := by
  rw [stop_between_eq]
  unfold lineEnd
  split
  · next h =>
    simp only [closesLine, Bool.and_eq_true, Bool.or_eq_true, beq_iff_eq, decide_eq_true_eq] at h
    obtain ⟨⟨-, -, hend⟩, hlt⟩ := h
    have hnewline : t[closer.stop]? = some '\n' := by
      rcases hend with hend | hend
      · omega
      · exact hend
    obtain ⟨hlt', hget⟩ := List.getElem?_eq_some_iff.1 hnewline
    rw [Text.slice, List.length_singleton, List.take_add_one, hnewline, List.drop_append_of_le_length]
    · simp
    · simp [hle]
  · simp [Text.slice]

theorem stop_between_le (opener : Marker) (hle : closer.stop ≤ t.length) :
    closer.stop ≤ (between t opener closer).stop ∧ (between t opener closer).stop ≤ t.length := by
  rw [stop_between_eq]
  refine ⟨Nat.le_add_right .., ?_⟩
  unfold lineEnd
  split
  · next h =>
    simp only [Bool.and_eq_true, decide_eq_true_eq] at h
    exact h.2
  · exact hle

/-- What a round does: it passes over the markers before the opener, and finds the section of this or
no end for it. -/
structure IsRound (t : Text) (offset : Nat) (x : Found) (next : Nat) (before : List Marker)
    (opener : Marker) (after : List Marker) : Prop where
  markers : markersOf t = before ++ opener :: after
  passed : ∀ m ∈ before, ¬ OpensFrom offset m
  opens : opener.kind = .sectionStart
  le : offset ≤ opener.start
  outcome :
    (∃ closer, (findCloser opener 1 after).1 = some closer ∧
      x = .span (between t opener closer) ∧ next = (between t opener closer).stop) ∨
    ((findCloser opener 1 after).1 = none ∧ x = .unclosed opener ∧ next = opener.stop)

variable {x : Found} {xs : List Found} {before after : List Marker}

theorem exists_isRound (h : round? t offset = some (x, next)) :
    ∃ before opener after, IsRound t offset x next before opener after := by
  obtain ⟨opener, hfind, hround⟩ := Option.map_eq_some_iff.1 h
  obtain ⟨hopens, before, after, hmarkers, hpassed⟩ := List.find?_eq_some_iff_append.1 hfind
  obtain ⟨hkind, hle⟩ := of_decide_eq_true hopens
  refine ⟨before, opener, after, hmarkers, fun m hm => ?_, hkind, hle, ?_⟩
  · simpa only [Bool.not_eq_true', decide_eq_false_iff_not] using hpassed m hm
  · rw [behind_eq hmarkers] at hround
    split at hround
    · next closer hc =>
      obtain ⟨rfl, rfl⟩ := Prod.mk.inj hround
      exact .inl ⟨closer, hc, rfl, rfl⟩
    · next hc =>
      obtain ⟨rfl, rfl⟩ := Prod.mk.inj hround
      exact .inr ⟨hc, rfl, rfl⟩

namespace IsRound

theorem stop_le (h : IsRound t offset x next before opener after) :
    ∀ m ∈ after, opener.stop ≤ m.start := by
  have hsorted := pairwise_markersOf t
  rw [h.markers, List.pairwise_append, List.pairwise_cons] at hsorted
  exact hsorted.2.1.1

/-- The closer of a section stands behind its opener. -/
theorem closer_place (h : IsRound t offset x next before opener after)
    (hc : (findCloser opener 1 after).1 = some closer) :
    opener.stop ≤ closer.start ∧ closer.start < closer.stop ∧ closer.stop ≤ t.length := by
  have hmem : closer ∈ after := mem_of_findCloser (Prod.ext hc rfl)
  exact ⟨h.stop_le closer hmem, place_of_mem_markersOf (by rw [h.markers]; simp [hmem])⟩

/-- **A round moves forward**, past the opener, and stays in the text. -/
theorem forward (h : IsRound t offset x next before opener after) :
    opener.start < opener.stop ∧ opener.stop ≤ next ∧ next ≤ t.length := by
  obtain ⟨hlt, hle⟩ := place_of_mem_markersOf (t := t) (m := opener) (by rw [h.markers]; simp)
  rcases h.outcome with ⟨closer, hc, -, rfl⟩ | ⟨-, -, rfl⟩
  · obtain ⟨hopener, hcloser, hend⟩ := h.closer_place hc
    have := stop_between_le opener hend
    omega
  · exact ⟨hlt, Nat.le_refl _, hle⟩

/-- The next round passes over the markers up to the opener. -/
theorem passed_next (h : IsRound t offset x next before opener after) :
    ∀ m ∈ before ++ [opener], ¬ OpensFrom next m := by
  obtain ⟨hlt, hle, -⟩ := h.forward
  have hoffset := h.le
  rintro m hm ⟨hkind, hm'⟩
  rcases List.mem_append.1 hm with hm | hm
  · exact h.passed m hm ⟨hkind, by omega⟩
  · obtain rfl := List.mem_singleton.1 hm
    omega

end IsRound

/-- **The rounds come to an end**, wherever they begin. -/
theorem wellFounded_round (t : Text) :
    WellFounded fun next offset => ∃ x, round? t offset = some (x, next) := by
  refine Subrelation.wf ?_ (measure fun offset => t.length - offset).wf
  rintro next offset ⟨x, h⟩
  obtain ⟨before, opener, after, hround⟩ := exists_isRound h
  have hforward := hround.forward
  have hle := hround.le
  show t.length - next < t.length - offset
  omega

theorem exists_searches (t : Text) (offset : Nat) : ∃ xs, Searches t offset xs := by
  induction offset using (wellFounded_round t).induction with
  | h offset ih =>
    cases h : round? t offset with
    | none => exact ⟨[], .done h⟩
    | some y =>
      obtain ⟨x, next⟩ := y
      obtain ⟨xs, hxs⟩ := ih next ⟨x, h⟩
      exact ⟨x :: xs, .next h hxs⟩

/-! ## All rounds -/

theorem findFrom_append_passed {before : List Marker}
    (h : ∀ m ∈ before, ¬ OpensFrom offset m) (ms : List Marker) :
    findFrom t offset (before ++ ms) = findFrom t offset ms := by
  induction before with
  | nil => rfl
  | cons m before ih =>
    rw [List.cons_append, findFrom, if_neg (h m List.mem_cons_self),
      ih fun m hm => h m (List.mem_cons_of_mem _ hm)]

/-- What the search returns is what the rounds find. -/
theorem Searches.findFrom_eq (h : Searches t offset xs) :
    findFrom t offset (markersOf t) =
      (spansOf xs,
        (unclosedOf xs).map fun m => .unclosedSection m.argument) := by
  induction h with
  | @done offset h =>
    rw [round?, Option.map_eq_none_iff, List.find?_eq_none] at h
    have hpassed : ∀ m ∈ markersOf t, ¬ OpensFrom offset m := by simpa using h
    rw [← List.append_nil (markersOf t), findFrom_append_passed hpassed]
    rfl
  | @next offset next x xs h _ ih =>
    obtain ⟨before, opener, after, hround⟩ := exists_isRound h
    -- The search goes on with the markers behind the opener, the next round looks at all of them again.
    have hrest : findFrom t next (markersOf t) = findFrom t next after := by
      rw [hround.markers, List.append_cons, findFrom_append_passed hround.passed_next]
    rw [hround.markers, findFrom_append_passed hround.passed, findFrom,
      if_pos ⟨hround.opens, hround.le⟩]
    rw [hrest] at ih
    rcases hround.outcome with ⟨closer, hc, rfl, rfl⟩ | ⟨hc, rfl, rfl⟩
    · rw [show findCloser opener 1 after = (some closer, _) from Prod.ext hc rfl]
      dsimp only
      rw [ih]
      rfl
    · rw [show findCloser opener 1 after = (none, _) from Prod.ext hc rfl]
      dsimp only
      rw [ih]
      rfl

/-- The span is the section from an opener to the closer that is found for it, with the newline behind
the closer where the markers fill lines. -/
structure Covers (t : Text) (s : Span) (opener closer : Marker) : Prop where
  mem : opener ∈ Marker.scan t
  opens : opener.kind = .sectionStart
  closes : (findCloser opener 1 (behind opener t)).1 = some closer
  start : s.start = opener.start
  stop : s.stop = closer.stop + (lineEnd t opener closer).length
  slice : Text.slice t closer.stop s.stop = lineEnd t opener closer
  lt : s.start < s.stop
  le_length : s.stop ≤ t.length

/-- The marker is not in a span. -/
def isOutside (spans : List Span) (m : Marker) : Bool :=
  spans.all fun s => m.start < s.start || s.stop ≤ m.start

theorem IsRound.covers {s : Span} (h : IsRound t offset (.span s) next before opener after) :
    s.start = opener.start ∧ s.stop = next ∧ ∃ closer, Covers t s opener closer := by
  have hplace := h.forward
  rcases h.outcome with ⟨closer, hc, hs, hnext⟩ | ⟨-, hs, -⟩
  · obtain rfl := Found.span.inj hs
    obtain ⟨-, -, hend⟩ := h.closer_place hc
    have hstart := (opener_between t opener closer).2
    refine ⟨hstart, hnext.symm, closer, ?_⟩
    exact {
      mem := (List.mem_filter.1 (show opener ∈ markersOf t by rw [h.markers]; simp)).1
      opens := h.opens
      closes := by rw [behind_eq h.markers, hc]
      start := hstart
      stop := stop_between_eq t opener closer
      slice := slice_lineEnd hend
      lt := by omega
      le_length := by omega }
  · cases hs

theorem IsRound.unclosed {m : Marker} (h : IsRound t offset (.unclosed m) next before opener after) :
    m = opener ∧ next = opener.stop ∧ (findCloser m 1 (behind m t)).1 = none := by
  rcases h.outcome with ⟨closer, -, hx, -⟩ | ⟨hc, hx, hnext⟩
  · cases hx
  · obtain rfl := Found.unclosed.inj hx
    exact ⟨rfl, hnext, by rw [behind_eq h.markers, hc]⟩

/-- The spans follow each other, and each is a section with its closer. -/
theorem Searches.spans (h : Searches t offset xs) :
    (spansOf xs).Pairwise (fun s s' => s.stop ≤ s'.start) ∧
    ∀ s ∈ spansOf xs, offset ≤ s.start ∧ ∃ opener closer, Covers t s opener closer := by
  induction h with
  | done => exact ⟨.nil, fun s hs => absurd hs List.not_mem_nil⟩
  | @next offset next x xs h _ ih =>
    obtain ⟨before, opener, after, hround⟩ := exists_isRound h
    obtain ⟨hpairwise, hspans⟩ := ih
    have hplace := hround.forward
    have hle := hround.le
    have hrest : ∀ s ∈ spansOf xs, offset ≤ s.start ∧
        ∃ opener closer, Covers t s opener closer := fun s hs =>
      ⟨by have := (hspans s hs).1; omega, (hspans s hs).2⟩
    cases x with
    | unclosed m => exact ⟨hpairwise, hrest⟩
    | span s =>
      obtain ⟨hstart, rfl, hcovers⟩ := hround.covers
      refine ⟨.cons (fun s' hs' => (hspans s' hs').1) hpairwise, ?_⟩
      rw [spansOf, List.forall_mem_cons]
      exact ⟨⟨by omega, opener, hcovers⟩, hrest⟩

/-- No closer is found for an opener that is reported. -/
theorem Searches.closer_of_unclosed (h : Searches t offset xs) :
    ∀ m ∈ unclosedOf xs, (findCloser m 1 (behind m t)).1 = none := by
  induction h with
  | done => exact fun m hm => absurd hm List.not_mem_nil
  | @next offset next x xs h _ ih =>
    obtain ⟨before, opener, after, hround⟩ := exists_isRound h
    cases x with
    | span s => exact ih
    | unclosed m =>
      rw [unclosedOf, List.forall_mem_cons]
      exact ⟨hround.unclosed.2.2, ih⟩

theorem isOutside_cons (s : Span) (spans : List Span) (m : Marker) :
    isOutside (s :: spans) m = ((m.start < s.start || s.stop ≤ m.start) && isOutside spans m) := rfl

theorem filter_append_passed {before : List Marker} (h : ∀ m ∈ before, ¬ OpensFrom offset m)
    (ms : List Marker) (spans : List Span) :
    ((before ++ ms).filter fun m => OpensFrom offset m && isOutside spans m) =
      ms.filter fun m => OpensFrom offset m && isOutside spans m := by
  rw [List.filter_append, List.filter_eq_nil_iff.2, List.nil_append]
  intro m hm
  simp [h m hm]

/-- **The openers outside all spans are reported**, each once and in order. -/
theorem Searches.unclosed_eq (h : Searches t offset xs) :
    unclosedOf xs =
      (markersOf t).filter fun m => OpensFrom offset m && isOutside (spansOf xs) m := by
  induction h with
  | @done offset h =>
    rw [round?, Option.map_eq_none_iff, List.find?_eq_none] at h
    refine (List.filter_eq_nil_iff.2 fun m hm hopens => h m hm ?_).symm
    exact (Bool.and_eq_true_iff.1 hopens).1
  | @next offset next x xs h hrest ih =>
    obtain ⟨before, opener, after, hround⟩ := exists_isRound h
    obtain ⟨hlt, hopener, -⟩ := hround.forward
    have hle := hround.le
    rw [hround.markers, List.append_cons, filter_append_passed hround.passed_next] at ih
    rw [hround.markers, filter_append_passed hround.passed]
    cases x with
    | unclosed m =>
      obtain ⟨rfl, rfl, -⟩ := hround.unclosed
      -- The sections that are found later begin behind the opener, so it is outside of them.
      have hself : isOutside (spansOf xs) m := List.all_eq_true.2 fun s hs => by
        have := (hrest.spans.2 s hs).1
        simpa using .inl (by omega)
      rw [unclosedOf, spansOf, List.filter_cons_of_pos (by simp [hself, hround.opens, hle]), ih]
      refine congrArg (m :: ·) (List.filter_congr fun m' hm' => ?_)
      have hle' := hround.stop_le m' hm'
      have hiff : OpensFrom m.stop m' ↔ OpensFrom offset m' :=
        and_congr_right fun _ => ⟨fun _ => by omega, fun _ => hle'⟩
      exact congrArg (· && isOutside (spansOf xs) m') (decide_eq_decide.2 hiff)
    | span s =>
      obtain ⟨hstart, rfl, -⟩ := hround.covers
      -- The opener is in its section. Behind it a marker is outside of this just if it is from its end on.
      have hself : isOutside (s :: spansOf xs) opener = false := by
        rw [isOutside_cons]
        simp [hstart]
        omega
      rw [unclosedOf, spansOf, List.filter_cons_of_neg (by simp [hself]), ih]
      refine List.filter_congr fun m hm => ?_
      have hle' := hround.stop_le m hm
      rw [isOutside_cons, ← Bool.and_assoc]
      refine congrArg (· && isOutside (spansOf xs) m) ?_
      rw [Bool.eq_iff_iff, Bool.and_eq_true, Bool.or_eq_true, decide_eq_true_eq, decide_eq_true_eq,
        decide_eq_true_eq, decide_eq_true_eq]
      constructor
      · exact fun ⟨hk, hs⟩ => ⟨⟨hk, by omega⟩, .inr hs⟩
      · exact fun ⟨⟨hk, _⟩, hs⟩ => ⟨hk, by omega⟩

/-- **The sections of a text are those that the rounds find.** Each is a section with the closer that is
found for its opener, they follow each other in the text, and the search comes to an end wherever it
begins. For the openers outside the sections no closer is found, and each of them is reported. -/
theorem find_searches (t : Text) :
    (find t).1.Pairwise (fun s s' => s.stop ≤ s'.start) ∧
    (∀ s ∈ (find t).1, ∃ opener closer, Covers t s opener closer) ∧
    (∀ m ∈ Marker.scan t, m.kind = .sectionStart → isOutside (find t).1 m →
      (findCloser m 1 (behind m t)).1 = none ∧
      .unclosedSection m.argument ∈ (find t).2) ∧
    (find t).2 = ((Marker.scan t).filter fun m =>
      m.kind = .sectionStart && isOutside (find t).1 m).map (.unclosedSection ·.argument) ∧
    WellFounded (fun next offset => ∃ x, round? t offset = some (x, next)) ∧
    ∃ xs, Searches t 0 xs ∧
      find t = (spansOf xs, (unclosedOf xs).map (.unclosedSection ·.argument)) := by
  obtain ⟨xs, hxs⟩ := exists_searches t 0
  have hfind : find t = (spansOf xs, (unclosedOf xs).map (.unclosedSection ·.argument)) :=
    hxs.findFrom_eq
  have hspans := hxs.spans
  have hunclosed : unclosedOf xs = (Marker.scan t).filter fun m =>
      m.kind = .sectionStart && isOutside (spansOf xs) m := by
    rw [hxs.unclosed_eq, markersOf, Marker.scanFor, List.filter_filter]
    refine List.filter_congr fun m _ => ?_
    by_cases hk : m.kind = .sectionStart
    · simp [OpensFrom, hk, Marker.Kind.isSection]
    · simp [OpensFrom, hk]
  rw [hfind]
  refine ⟨hspans.1, fun s hs => (hspans.2 s hs).2, fun m hm hk ho => ?_, ?_, wellFounded_round t, xs,
    hxs, rfl⟩
  · have hmem : m ∈ unclosedOf xs := by
      rw [hunclosed]
      exact List.mem_filter.2 ⟨hm, by simp [hk, ho]⟩
    exact ⟨hxs.closer_of_unclosed m hmem, List.mem_map_of_mem hmem⟩
  · exact congrArg (List.map _) hunclosed

/-- Behind an opener that is never closed the search goes on, and a section in lines of its own takes
the newline behind it along. -/
example :
    let t : Text := Marker.enclose "#A" ++ "\n" ++ Marker.enclose "#B" ++ "\nx\n" ++
      Marker.enclose "/B" ++ "\ny"
    ((find t).1.map fun s => (s.start, s.stop, s.body)) = [(7, 23, ("x\n" : Text))] ∧
      (find t).2 = [.unclosedSection "A"] := by
  decide +kernel

end Span
end MailMerge.Section
