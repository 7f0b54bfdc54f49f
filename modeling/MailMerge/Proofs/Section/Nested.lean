import MailMerge.Proofs.Section.Spans

/-!
# Nested sections

The markers of a text, each given by the text between its braces, are nested if what stands between
the ends of a section is nested again. Markers without a partner, the strays, may stand anywhere, but
inside a section none of them is about that section, and no two of them would be the ends of one.

The search for the end of a section goes over nested sections: only strays count.

**`findCloser_pair`**: the end of a nested section is found.

**`findCloser_stray`**: a stray that starts a section has no end, if none is among the strays after it.
-/

namespace MailMerge.Section

open Marker (Token tokens joinTokens ofInner classify)

variable {i o c : Text} {is js ss : List Text}

/-! ## Ends of sections -/

/-- The texts between the braces of a text's markers, in order. -/
def inners (t : Text) : List Text :=
  (tokens t).filterMap Token.inner?

/-- The second marker ends a section that the first one starts. -/
def Ends (o c : Text) : Prop :=
  (ofInner c 0).closes (ofInner o 0)

instance (o c : Text) : Decidable (Ends o c) :=
  inferInstanceAs (Decidable (_ = true))

/-- The marker opens a section of the name of another one's. -/
def Reopens (o i : Text) : Bool :=
  (ofInner i 0).opensLike (ofInner o 0)

/-- The marker starts or ends a section of the name of another one. -/
def IsAbout (o i : Text) : Prop :=
  (classify i).kind.isSection ∧ (ofInner i 0).sameSection (ofInner o 0)

instance (o i : Text) : Decidable (IsAbout o i) :=
  inferInstanceAs (Decidable (_ = true ∧ _ = true))

/-- No marker is followed by one that ends a section that it starts. -/
def Settled (is : List Text) : Prop :=
  is.Pairwise fun i j => ¬ Ends i j

instance (is : List Text) : Decidable (Settled is) :=
  inferInstanceAs (Decidable (is.Pairwise fun i j => ¬ Ends i j))

/-- No marker ends a section that another one starts, in whatever order they are put. -/
def Apart (is : List Text) : Prop :=
  ∀ i ∈ is, ∀ j ∈ is, ¬ Ends i j

instance (is : List Text) : Decidable (Apart is) :=
  inferInstanceAs (Decidable (∀ i ∈ is, ∀ j ∈ is, ¬ Ends i j))

theorem Apart.subset (h : Apart js) (hs : is ⊆ js) : Apart is :=
  fun i hi j hj => h i (hs hi) j (hs hj)

theorem Apart.settled (h : Apart is) : Settled is :=
  List.pairwise_of_forall_mem_list fun i hi j hj => h i hi j hj

/-- Markers in which sections are nested, with the strays among them in order. -/
inductive Nested : (is strays : List Text) → Prop
  | nil : Nested [] []
  | stray {i : Text} {is ss : List Text} : Nested is ss → Nested (i :: is) (i :: ss)
  | pair {o c : Text} {body inside is ss : List Text} : Ends o c → Nested body inside →
      (∀ i ∈ inside, ¬ IsAbout o i) → Apart inside → Nested is ss →
      Nested (o :: (body ++ c :: is)) (inside ++ ss)

theorem Nested.append {js ss' : List Text} (h : Nested is ss) (h' : Nested js ss') :
    Nested (is ++ js) (ss ++ ss') := by
  induction h with
  | nil => exact h'
  | stray _ ih => exact .stray ih
  | @pair o c body inside is ss he hbody hinside hapart _ _ ih =>
    have := Nested.pair he hbody hinside hapart ih
    simpa using this

/-- Markers that are all strays. -/
theorem nested_self (is : List Text) : Nested is is := by
  induction is with
  | nil => exact .nil
  | cons i is ih => exact .stray ih

/-! ## The search for the end of a section -/

/-- The markers say what stands between the braces. -/
def Say (ms : List Marker) (is : List Text) : Prop :=
  ms.map Marker.toSense = is.map classify

variable {m opener : Marker} {ms rest : List Marker}

theorem opensLike_eq (hm : m.toSense = classify i) (ho : opener.toSense = classify o) :
    m.opensLike opener = (ofInner i 0).opensLike (ofInner o 0) := by
  simp only [Marker.opensLike, Marker.sameSection, ofInner, hm, ho]

theorem closes_eq (hm : m.toSense = classify i) (ho : opener.toSense = classify o) :
    m.closes opener = (ofInner i 0).closes (ofInner o 0) := by
  simp only [Marker.closes, Marker.sameSection, ofInner, hm, ho]

theorem isAbout_of_reopens (h : Reopens o i) : IsAbout o i := by
  simp only [Reopens, Marker.opensLike, Bool.and_eq_true, beq_iff_eq] at h
  refine ⟨?_, h.2⟩
  rw [show (classify i).kind = .sectionStart from h.1]
  rfl

theorem isAbout_of_ends (h : Ends o i) : IsAbout o i := by
  simp only [Ends, Marker.closes, Bool.and_eq_true, beq_iff_eq] at h
  refine ⟨?_, h.2⟩
  rw [show (classify i).kind = .sectionEnd from h.1.1]
  rfl

theorem isAbout_congr {o' : Text} (h : Reopens o o') : IsAbout o' i ↔ IsAbout o i := by
  simp only [Reopens, Marker.opensLike, Marker.sameSection, Bool.and_eq_true, beq_iff_eq] at h
  simp only [IsAbout, Marker.sameSection, h.2]

theorem Ends.kinds (h : Ends o c) : (classify o).kind = .sectionStart ∧ (classify c).kind = .sectionEnd := by
  simp only [Ends, Marker.closes, Bool.and_eq_true, beq_iff_eq] at h
  exact ⟨h.1.2, h.1.1⟩

/-- What ends the section of one opening marker ends that of another of the same name. -/
theorem ends_of_reopens {o' : Text} (h : Reopens o o') (hk : (classify o).kind = .sectionStart)
    (he : Ends o' c) : Ends o c := by
  simp only [Reopens, Marker.opensLike, Marker.sameSection, Bool.and_eq_true, beq_iff_eq] at h
  simp only [Ends, Marker.closes, Marker.sameSection, Bool.and_eq_true, beq_iff_eq] at he ⊢
  rw [← h.2.1, ← h.2.2]
  exact ⟨⟨he.1.1, hk⟩, he.2⟩

theorem reopens_of_ends {o' : Text} (h : Ends o c) (h' : Ends o' c) : Reopens o o' := by
  simp only [Ends, Marker.closes, Marker.sameSection, Bool.and_eq_true, beq_iff_eq] at h h'
  simp only [Reopens, Marker.opensLike, Marker.sameSection, Bool.and_eq_true, beq_iff_eq]
  exact ⟨h'.1.2, h'.2.1.symm.trans h.2.1, h'.2.2.symm.trans h.2.2⟩

theorem not_reopens_of_end (h : (classify i).kind = .sectionEnd) : ¬ Reopens o i := by
  intro hr
  simp only [Reopens, Marker.opensLike, Bool.and_eq_true, beq_iff_eq] at hr
  cases h.symm.trans hr.1

theorem not_ends_of_start (h : (classify i).kind = .sectionStart) : ¬ Ends o i := by
  intro he
  cases h.symm.trans he.kinds.2

/-! Steps of the search. -/

section Steps

variable {depth : Int} (hm : m.toSense = classify i) (ho : opener.toSense = classify o)
include hm ho

theorem findCloser_reopens (h : Reopens o i) :
    findCloser opener depth (m :: ms) = findCloser opener (depth + 1) ms := by
  rw [findCloser, if_pos (by rw [opensLike_eq hm ho]; exact h)]

theorem findCloser_ends (h : Ends o i) :
    findCloser opener depth (m :: ms) =
      if depth - 1 = 0 then (some m, 0) else findCloser opener (depth - 1) ms := by
  rw [findCloser, if_neg (by rw [opensLike_eq hm ho]; exact not_reopens_of_end h.kinds.2),
    if_pos (by rw [closes_eq hm ho]; exact h)]

theorem findCloser_other (hr : ¬ Reopens o i) (he : ¬ Ends o i) :
    findCloser opener depth (m :: ms) = findCloser opener depth ms := by
  rw [findCloser, if_neg (by rw [opensLike_eq hm ho]; exact hr),
    if_neg (by rw [closes_eq hm ho]; exact he)]

end Steps

/-- **The search goes over nested sections**, if no stray among them ends the section. It counts the
strays that open one of its name. -/
theorem findCloser_nested (ho : opener.toSense = classify o)
    (hk : (classify o).kind = .sectionStart) (h : Nested is ss) (hms : Say ms is)
    (hs : ∀ i ∈ ss, ¬ Ends o i) {depth : Int} (hd : 1 ≤ depth) :
    findCloser opener depth (ms ++ rest) =
      findCloser opener (depth + ss.countP (Reopens o)) rest := by
  induction h generalizing ms rest depth with
  | nil =>
    obtain rfl := List.map_eq_nil_iff.1 hms
    simp
  | @stray i is ss _ ih =>
    obtain ⟨m, ms, rfl, hm, hms⟩ := List.map_eq_cons_iff.1 hms
    have hrest : ∀ j ∈ ss, ¬ Ends o j := fun j hj => hs j (List.mem_cons_of_mem i hj)
    rw [List.cons_append]
    by_cases hr : Reopens o i
    · rw [findCloser_reopens hm ho hr, ih hms hrest (by omega), List.countP_cons_of_pos hr]
      congr 1
      push_cast
      omega
    · rw [findCloser_other hm ho hr (hs i List.mem_cons_self), ih hms hrest hd,
        List.countP_cons_of_neg hr]
  | @pair o' c body inside is ss he _ hinside _ _ ihbody ih =>
    obtain ⟨m, tail, rfl, hm, htail⟩ := List.map_eq_cons_iff.1 hms
    rw [List.map_append] at htail
    obtain ⟨first, second, rfl, hfirst, hsecond⟩ := List.map_eq_append_iff.1 htail
    obtain ⟨m', last, rfl, hm', hlast⟩ := List.map_eq_cons_iff.1 hsecond
    have hrest : ∀ j ∈ ss, ¬ Ends o j := fun j hj => hs j (List.mem_append_right _ hj)
    have hbody : ∀ j ∈ inside, ¬ Ends o j := fun j hj => hs j (List.mem_append_left _ hj)
    rw [List.cons_append, List.append_assoc, List.cons_append, List.countP_append]
    by_cases hr : Reopens o o'
    · -- A section of the name: its own end is met at a depth of two or more.
      have hzero : inside.countP (Reopens o) = 0 := List.countP_eq_zero.2 fun j hj hj' =>
        hinside j hj ((isAbout_congr hr).2 (isAbout_of_reopens hj'))
      rw [findCloser_reopens hm ho hr, ihbody hfirst hbody (by omega), hzero,
        findCloser_ends hm' ho (ends_of_reopens hr hk he), if_neg (by omega)]
      rw [ih hlast hrest (by omega)]
      congr 1
      omega
    · have hnot : ¬ Ends o c := fun h => hr (reopens_of_ends h he)
      rw [findCloser_other hm ho hr (not_ends_of_start he.kinds.1), ihbody hfirst hbody hd,
        findCloser_other hm' ho (not_reopens_of_end he.kinds.2) hnot, ih hlast hrest (by omega)]
      congr 1
      push_cast
      omega

/-- The search goes on unchanged where no stray is about the section. -/
theorem findCloser_foreign (ho : opener.toSense = classify o) (hk : (classify o).kind = .sectionStart)
    (h : Nested is ss) (hms : Say ms is) (hs : ∀ i ∈ ss, ¬ IsAbout o i) :
    findCloser opener 1 (ms ++ rest) = findCloser opener 1 rest := by
  have hzero : ss.countP (Reopens o) = 0 := List.countP_eq_zero.2 fun j hj hj' =>
    hs j hj (isAbout_of_reopens hj')
  rw [findCloser_nested ho hk h hms (fun i hi hi' => hs i hi (isAbout_of_ends hi')) (Int.le_refl 1), hzero]
  rfl

/-- **The end of a nested section is found.** -/
theorem findCloser_pair {o c : Text} {body inside : List Text} (ho : opener.toSense = classify o)
    (he : Ends o c) (h : Nested body inside) (hinside : ∀ i ∈ inside, ¬ IsAbout o i)
    (hms : Say ms body) (hm : m.toSense = classify c) :
    findCloser opener 1 (ms ++ m :: rest) = (some m, 0) := by
  rw [findCloser_foreign ho he.kinds.1 h hms hinside, findCloser_ends hm ho he]
  rfl

/-- **A stray has no end**, if none of the strays after it ends its section. -/
theorem findCloser_stray (ho : opener.toSense = classify o) (hk : (classify o).kind = .sectionStart)
    (h : Nested is ss) (hms : Say ms is) (hs : ∀ i ∈ ss, ¬ Ends o i) :
    (findCloser opener 1 ms).1 = none := by
  have : findCloser opener 1 (ms ++ []) = findCloser opener (1 + ss.countP (Reopens o)) [] :=
    findCloser_nested ho hk h hms hs (Int.le_refl 1)
  rw [List.append_nil] at this
  rw [this]
  rfl

end MailMerge.Section
