import Mathlib.Data.Finset.Max
import MailMerge.Proofs.Section.Place
import MailMerge.Proofs.Section.Siblings
import MailMerge.Proofs.Section.Table

/-!
# What is captured of a section

The search for the end of a section goes by offsets, but the two markers of the section are taken out
by what they say: the first one that reads like the opening marker, and the last one that reads like
the closing marker. The first is always the opening marker itself. The last is the closing marker only
if its row or paragraph goes on without another one of the same text; else that other one is taken out,
and the closing marker stays in the template.

**`captured_without_markers`**: what is captured of a section is its rows, or its blocks, without the
opening marker and the last marker of the closing one's text. If that is the closing marker, sections
of the name are balanced in what is captured exactly if they are in the rows or blocks.
-/

namespace MailMerge.Section

open Marker (Token tokens joinTokens charTokens ofInner classify locateTokens)

variable {opener closer m : Marker} {cells : List Text} {is js : List Text} {ts us : List Token}
  {t : Text} {offset : Nat}

/-! ## Depths -/

/-- How many sections of a name are open after markers, given by the texts between their braces, if
each closing marker among them has an opening one. -/
def openAfter (opener : Marker) : (depth : Nat) → List Text → Option Nat
  | depth, [] => some depth
  | depth, i :: is =>
    if (ofInner i 0).opensLike opener then openAfter opener (depth + 1) is
    else if (ofInner i 0).closes opener then
      if depth = 0 then none else openAfter opener (depth - 1) is
    else openAfter opener depth is

theorem openAfter_append (depth : Nat) (is js : List Text) :
    openAfter opener depth (is ++ js) =
      (openAfter opener depth is).bind fun depth => openAfter opener depth js := by
  induction is generalizing depth with
  | nil => rfl
  | cons i is ih =>
    simp only [List.cons_append, openAfter]
    split
    · exact ih _
    · split
      · split
        · rfl
        · exact ih _
      · exact ih _

/-- The depth that a search without a result carries on is the number of sections that are open. -/
theorem openAfter_of_findCloser {ms : List Marker} {depth : Nat} {d : Int} (hms : Say ms is)
    (h : findCloser opener (depth + 1) ms = (none, d)) :
    ∃ k : Nat, d = k + 1 ∧ ∀ n, openAfter opener (n + depth) is = some (n + k) := by
  induction ms generalizing is depth with
  | nil =>
    obtain rfl : is = [] := by simpa [Say] using hms.symm
    obtain ⟨-, rfl⟩ := Prod.mk.inj h
    exact ⟨depth, rfl, fun n => rfl⟩
  | cons m ms ih =>
    obtain ⟨i, is, rfl, hi, his⟩ := List.map_eq_cons_iff.1 hms.symm
    replace his : Say ms is := his.symm
    have hopens : (ofInner i 0).opensLike opener = m.opensLike opener := by
      rw [Marker.opensLike, Marker.opensLike, Marker.sameSection, Marker.sameSection, ← hi]
      rfl
    have hcloses : (ofInner i 0).closes opener = m.closes opener := by
      rw [Marker.closes, Marker.closes, Marker.sameSection, Marker.sameSection, ← hi]
      rfl
    rw [findCloser] at h
    simp only [openAfter, hopens, hcloses]
    split
    · next ho =>
      rw [if_pos ho] at h
      exact @ih is (depth + 1) his (by exact_mod_cast h)
    · next ho =>
      rw [if_neg ho] at h
      split
      · next hc =>
        rw [if_pos hc] at h
        split at h
        · cases h
        · next hd =>
          cases depth with
          | zero => simp at hd
          | succ depth =>
            obtain ⟨k, hk, hopen⟩ := @ih is depth his (by rw [← h]; congr 1; omega)
            exact ⟨k, hk, hopen⟩
      · next hc =>
        rw [if_neg hc] at h
        exact ih his h

/-- **A section taken out leaves the depths around it.** -/
theorem openAfter_section {o c : Text} {as bs cs : List Text} (ho : (ofInner o 0).opensLike opener)
    (hc : (ofInner c 0).closes opener) (hbs : ∀ n, openAfter opener n bs = some n) (depth : Nat) :
    openAfter opener depth (as ++ o :: (bs ++ c :: cs)) = openAfter opener depth (as ++ (bs ++ cs)) := by
  have hopens : (ofInner c 0).opensLike opener = false := by
    have := (Bool.and_eq_true_iff.1 (Bool.and_eq_true_iff.1 hc).1).1
    rw [Marker.opensLike, eq_of_beq this]
    rfl
  rw [openAfter_append, openAfter_append]
  congr 1
  funext n
  rw [openAfter, if_pos ho, openAfter_append, openAfter_append, hbs, hbs, Option.bind_some,
    Option.bind_some, openAfter, if_neg (by simp [hopens]), if_pos hc, if_neg n.succ_ne_zero,
    Nat.add_sub_cancel]

/-! ## The markers of a section -/

/-- The search ends at a marker that closes the section, all that are opened behind the opening marker
being closed. -/
theorem exists_of_findCloser {ms : List Marker} {depth d : Int}
    (h : findCloser opener depth ms = (some closer, d)) :
    ∃ xs ys, ms = xs ++ closer :: ys ∧ findCloser opener depth xs = (none, 1) ∧
      closer.closes opener := by
  induction ms generalizing depth with
  | nil => cases h
  | cons m ms ih =>
    rw [findCloser] at h
    split at h
    · next ho =>
      obtain ⟨xs, ys, rfl, hx, hc⟩ := ih h
      exact ⟨m :: xs, ys, rfl, by rw [findCloser, if_pos ho, hx], hc⟩
    · next ho =>
      split at h
      · next hm =>
        split at h
        · next hd =>
          obtain ⟨he, -⟩ := Prod.mk.inj h
          obtain rfl := Option.some.inj he
          exact ⟨[], ms, rfl, by rw [findCloser]; congr 1; omega, hm⟩
        · next hd =>
          obtain ⟨xs, ys, rfl, hx, hc⟩ := ih h
          exact ⟨m :: xs, ys, rfl, by rw [findCloser, if_neg ho, if_pos hm, if_neg hd, hx], hc⟩
      · next hm =>
        obtain ⟨xs, ys, rfl, hx, hc⟩ := ih h
        exact ⟨m :: xs, ys, rfl, by rw [findCloser, if_neg ho, if_neg hm, hx], hc⟩

theorem exists_of_findCloserIn {lists : List (List Marker)} {depth : Int} {i : Nat}
    (h : findCloserIn opener depth lists = some (i, closer)) :
    ∃ before xs ys after, lists = before ++ (xs ++ closer :: ys) :: after ∧ before.length = i ∧
      findCloser opener depth (before.flatten ++ xs) = (none, 1) ∧ closer.closes opener := by
  induction lists generalizing depth i with
  | nil => cases h
  | cons ms lists ih =>
    rw [findCloserIn] at h
    split at h
    · next c d hf =>
      obtain ⟨rfl, rfl⟩ := Prod.mk.inj (Option.some.inj h)
      obtain ⟨xs, ys, rfl, hx, hc⟩ := exists_of_findCloser hf
      exact ⟨[], xs, ys, lists, rfl, rfl, hx, hc⟩
    · next d hf =>
      obtain ⟨⟨j, c⟩, hj, he⟩ := Option.map_eq_some_iff.1 h
      obtain ⟨rfl, rfl⟩ := Prod.mk.inj he
      obtain ⟨before, xs, ys, after, rfl, rfl, hx, hc⟩ := ih hj
      refine ⟨ms :: before, xs, ys, after, rfl, rfl, ?_, hc⟩
      rw [List.flatten_cons, List.append_assoc, findCloser_append, hf]
      exact hx

theorem exists_of_locateTokens {xs ys : List Marker} (h : locateTokens offset us = xs ++ m :: ys) :
    ∃ mid inner rest, us = mid ++ .marker inner :: rest ∧ locateTokens offset mid = xs ∧
      m = ofInner inner (offset + (joinTokens mid).length) := by
  induction us generalizing offset xs with
  | nil => simp [locateTokens] at h
  | cons k us ih =>
    cases k with
    | char ch =>
      obtain ⟨mid, inner, rest, rfl, hx, hm⟩ := ih h
      refine ⟨.char ch :: mid, inner, rest, rfl, hx, hm.trans ?_⟩
      congr 1
      simp only [Marker.joinTokens_cons, Token.text, List.length_append, List.length_singleton]
      omega
    | marker i =>
      rw [locateTokens] at h
      cases xs with
      | nil =>
        obtain ⟨rfl, -⟩ := List.cons.inj h
        exact ⟨[], i, us, rfl, rfl, rfl⟩
      | cons x xs =>
        rw [List.cons_append] at h
        obtain ⟨rfl, htail⟩ := List.cons.inj h
        obtain ⟨mid, inner, rest, rfl, hx, hm⟩ := ih htail
        refine ⟨.marker i :: mid, inner, rest, rfl, by rw [locateTokens, hx], hm.trans ?_⟩
        congr 1
        simp only [Marker.joinTokens_cons, Token.text, List.length_append]
        omega

/-- What the search for the end of a section goes over. -/
theorem closingText?_eq (h : tokens t = ts ++ .marker i :: us) (texts : List Text) :
    closingText? (ofInner i (joinTokens ts).length) (t :: texts) =
      findCloserIn (ofInner i (joinTokens ts).length) 1
        (locateTokens (ofInner i (joinTokens ts).length).stop us :: texts.map Marker.scan) := by
  rw [← filter_scan h, ← findCloserIn_filter, List.map_cons, List.filter_filter, List.map_map,
    closingText?, markersOf, Marker.scanFor, List.filter_filter]
  congr 2
  exact List.filter_congr fun m _ => Bool.and_comm ..

/-! ## Rows whose markers are upright -/

/-- No marker of the row holds opening braces, and each one stands in a single cell. -/
structure Upright (cells : List Text) : Prop where
  simple : ∀ i ∈ inners (rowText cells), Marker.Simple i
  inCells : ∀ m ∈ Marker.scan (rowText cells), ∃ p : Place, p.Holds m cells

theorem Upright.simple_tokens (h : Upright cells) :
    ∀ i, .marker i ∈ tokens (rowText cells) → Marker.Simple i :=
  fun i hi => h.simple i (List.mem_filterMap.2 ⟨_, hi, rfl⟩)

theorem eq_ofInner_of_mem_scan (hm : m ∈ Marker.scan t) :
    ∃ ts inner us, tokens t = ts ++ .marker inner :: us ∧ (joinTokens ts).length = m.start ∧
      m = ofInner inner m.start := by
  obtain ⟨ts, inner, us, hb, he⟩ := between_of_mem_scan hm
  exact ⟨ts, inner, us, hb.1, hb.2, he⟩

theorem start_lt_stop (hm : m ∈ Marker.scan t) : m.start < m.stop := by
  obtain ⟨-, inner, -, -, -, he⟩ := eq_ofInner_of_mem_scan hm
  have : 0 < (Marker.enclose inner).length := List.length_pos_iff.2 (text_ne_nil (.marker inner))
  rw [he]
  show m.start < m.start + _
  omega

/-- No two markers of a text start at the same offset. -/
theorem eq_of_start_eq {m' : Marker} (hm : m ∈ Marker.scan t) (hm' : m' ∈ Marker.scan t)
    (h : m.start = m'.start) : m = m' := by
  obtain ⟨i, hi, rfl⟩ := List.getElem_of_mem hm
  obtain ⟨j, hj, rfl⟩ := List.getElem_of_mem hm'
  have hbefore := List.pairwise_iff_getElem.1 (Marker.pairwise_scan t)
  rcases Nat.lt_trichotomy i j with hij | rfl | hij
  · have := hbefore i j hi hj hij
    have := start_lt_stop hm
    omega
  · rfl
  · have := hbefore j i hj hi hij
    have := start_lt_stop hm'
    omega

/-- A marker is the last one of its text that another marker has. -/
structure IsLastOf (t : Text) (closer last : Marker) : Prop where
  mem : last ∈ Marker.scan t
  text : last.text = closer.text
  last : ∀ m ∈ Marker.scan t, m.text = closer.text → m.start ≤ last.start

theorem exists_isLastOf (hm : closer ∈ Marker.scan t) : ∃ last, IsLastOf t closer last := by
  obtain ⟨last, hlast, hmax⟩ := ((Marker.scan t).toFinset.filter fun m => m.text = closer.text).exists_max_image
    Marker.start ⟨closer, by simpa using hm⟩
  simp only [Finset.mem_filter, List.mem_toFinset] at hlast hmax
  exact ⟨last, hlast.1, hlast.2, fun m hm he => hmax m ⟨hm, he⟩⟩

theorem IsLastOf.eq_iff {last : Marker} (h : IsLastOf t closer last) (hm : closer ∈ Marker.scan t) :
    last = closer ↔ ∀ m ∈ Marker.scan t, m.text = closer.text → m.start ≤ closer.start := by
  constructor
  · rintro rfl
    exact h.last
  · intro hle
    exact eq_of_start_eq h.mem hm (le_antisymm (hle last h.mem h.text) (h.last closer hm rfl))

theorem mem_of_firstOpener? (h : firstOpener? t = some opener) :
    opener ∈ Marker.scan t ∧ opener.kind = .sectionStart := by
  refine ⟨List.mem_of_find?_eq_some h, ?_⟩
  rw [firstOpener?] at h
  simpa using List.find?_some h

theorem start_le_of_firstOpener? (h : firstOpener? t = some opener) (hm : m ∈ Marker.scan t)
    (hk : m.kind = .sectionStart) : opener.start ≤ m.start := by
  obtain ⟨-, before, after, hscan, hbefore⟩ := List.find?_eq_some_iff_append.1 h
  have hpair := Marker.pairwise_scan t
  rw [hscan] at hm hpair
  rcases List.mem_append.1 hm with hm | hm
  · exact absurd (hbefore m hm) (by simp [hk])
  · rcases List.mem_cons.1 hm with rfl | hm
    · exact le_rfl
    · have := List.rel_of_pairwise_cons (List.pairwise_append.1 hpair).2.1 hm
      have := (start_lt_stop (hscan ▸ List.mem_append_right _ List.mem_cons_self : opener ∈ Marker.scan t))
      omega

/-! ## What is taken out -/

/-- A section's texts, by rows and cells, without the opening marker and without a marker in the last
row. If that is also the first row, the other marker stands behind the opening one. -/
inductive Strips (opener last : Marker) : (rows template : List (List Text)) → Prop
  | one {cells : List Text} {p q q' : Place} (first : p.Holds opener cells) (second : q.Holds last cells)
      (changed : q'.fill last.text = p.strip opener.text)
      (behind : q'.after = q.after ∧ q'.below = q.below) :
      Strips opener last [cells] [q'.strip last.text]
  | more {first final : List Text} {between : List (List Text)} {p q : Place}
      (opening : p.Holds opener first) (closing : q.Holds last final) :
      Strips opener last (first :: (between ++ [final]))
        (p.strip opener.text :: (between ++ [q.strip last.text]))

/-- The texts between the braces of the markers in rows, in order. -/
def rowInners (rows : List (List Text)) : List Text :=
  rows.flatMap fun cells => inners (rowText cells)

/-- Every opening marker of the name in the rows is closed, and every closing one is opened. -/
def Balanced (opener : Marker) (rows : List (List Text)) : Prop :=
  openAfter opener 0 (rowInners rows) = some 0

/-- What is captured of a section's rows. -/
structure TakenOut (opener closer : Marker) (rows template : List (List Text)) (last : Marker) : Prop where
  isLast : ∀ cells ∈ rows.getLast?, IsLastOf (rowText cells) closer last
  eq_closer_iff : last = closer ↔ ∀ cells ∈ rows.getLast?, ∀ m ∈ Marker.scan (rowText cells),
    m.text = closer.text → m.start ≤ closer.start
  strips : Strips opener last rows template
  balanced : last = closer → (Balanced opener template ↔ Balanced opener rows)

/-! ## Balance -/

variable {p q : Place} {i : Text}

theorem trail_eq (hp : p.Holds m cells) (h : tokens (rowText cells) = ts ++ .marker i :: us)
    (hm : m = ofInner i (joinTokens ts).length) : joinTokens us = p.trail := by
  have htext := congrArg joinTokens h
  rw [Marker.joinTokens_tokens, hp.1, Place.rowText_fill, Marker.joinTokens_append,
    Marker.joinTokens_cons, ← List.append_assoc] at htext
  refine (List.append_inj htext ?_).2.symm
  rw [List.length_append, List.length_append, hp.2, hm]
  rfl

theorem lead_eq (h : tokens (rowText (p.fill (Marker.enclose i))) = ts ++ .marker i :: us)
    (htrail : joinTokens us = p.trail) : joinTokens ts = p.lead := by
  have htext := congrArg joinTokens h
  rw [Marker.joinTokens_tokens, Place.rowText_fill, Marker.joinTokens_append,
    Marker.joinTokens_cons, htrail, ← List.append_assoc] at htext
  exact (List.append_cancel_right (List.append_cancel_right htext)).symm

/-- The marker at a place goes, and all others stay. -/
theorem inners_strip (h : tokens (rowText (p.fill (Marker.enclose i))) = ts ++ .marker i :: us)
    (htrail : joinTokens us = p.trail) :
    inners (rowText (p.strip (Marker.enclose i))) =
      ts.filterMap Token.inner? ++ us.filterMap Token.inner? := by
  obtain ⟨ts', us', a, b, rfl, rfl, hstrip⟩ := Place.tokens_strip h (lead_eq h htrail) (Marker.enclose i)
  rw [inners, hstrip]
  simp only [List.filterMap_append, filterMap_charTokens, List.append_nil, List.nil_append]

theorem inners_strip_of_holds (hp : p.Holds m cells)
    (h : tokens (rowText cells) = ts ++ .marker i :: us) (hm : m = ofInner i (joinTokens ts).length) :
    inners (rowText (p.strip m.text)) = ts.filterMap Token.inner? ++ us.filterMap Token.inner? := by
  have htrail := trail_eq hp h hm
  rw [hp.1, hm] at h
  rw [hm]
  exact inners_strip h htrail

/-- Two markers of one row are taken out, one after the other. -/
theorem inners_strip_two {o c : Text} {mid : List Token} {q' : Place} (hp : p.Holds opener cells)
    (hq : q.Holds closer cells)
    (h : tokens (rowText cells) = ts ++ .marker o :: (mid ++ .marker c :: us))
    (ho : opener = ofInner o (joinTokens ts).length)
    (hc : closer = ofInner c (opener.stop + (joinTokens mid).length))
    (hq' : q'.fill closer.text = p.strip opener.text) (hbehind : q'.after = q.after ∧ q'.below = q.below) :
    inners (rowText (q'.strip closer.text)) = ts.filterMap Token.inner? ++
      (mid.filterMap Token.inner? ++ us.filterMap Token.inner?) := by
  have hcloser : closer = ofInner c (joinTokens (ts ++ .marker o :: mid)).length := by
    rw [hc, ho, Marker.joinTokens_append, Marker.joinTokens_cons, List.length_append, List.length_append,
      ← Nat.add_assoc]
    rfl
  have htrail : joinTokens us = q'.trail := by
    have htokens : tokens (rowText cells) = (ts ++ .marker o :: mid) ++ .marker c :: us := by
      rw [h]
      simp
    rw [trail_eq hq htokens hcloser, Place.trail, Place.trail, hbehind.1, hbehind.2]
  have hlead := trail_eq hp h ho
  have hopener : opener.text = Marker.enclose o := by rw [ho]; rfl
  have hcloser' : closer.text = Marker.enclose c := by rw [hc]; rfl
  rw [hp.1, hopener] at h
  rw [hcloser'] at hq' ⊢
  obtain ⟨ts', us', a, b, hts, hsplit, hstrip⟩ := Place.tokens_strip h (lead_eq h hlead) opener.text
  obtain ⟨mid', hmid, hus'⟩ : ∃ mid', mid = charTokens b ++ mid' ∧ us' = mid' ++ .marker c :: us := by
    rcases List.append_eq_append_iff.1 hsplit with ⟨as, hb, hrest⟩ | ⟨bs, hb, hrest⟩
    · cases as with
      | nil => exact ⟨[], by simpa using hb.symm, by simpa using hrest.symm⟩
      | cons k as =>
        -- No marker is among the blanks that go with the opening one.
        obtain ⟨rfl, -⟩ := List.cons.inj hrest
        have : Token.marker c ∈ charTokens b := hb ▸ List.mem_append_right _ List.mem_cons_self
        obtain ⟨d, -, hd⟩ := List.mem_map.1 this
        cases hd
    · exact ⟨bs, hb, hrest⟩
  rw [← hq', hus'] at hstrip
  rw [← List.append_assoc] at hstrip
  rw [inners_strip hstrip htrail, hts, hmid]
  simp only [List.filterMap_append, filterMap_charTokens, List.append_nil, List.nil_append,
    List.append_assoc]

/-- The marker that closes a section which begins in the first row, and those that it is looked for
among. -/
theorem exists_of_closingText? {o : Text} {first : List Text} {rest : List (List Text)}
    (h : tokens (rowText first) = ts ++ .marker o :: us)
    (ho : opener = ofInner o (joinTokens ts).length) {i : Nat}
    (hc : closingText? opener ((first :: rest).map rowText) = some (i, closer)) :
    ∃ before xs ys after, locateTokens opener.stop us :: rest.map (Marker.scan ∘ rowText) =
        before ++ (xs ++ closer :: ys) :: after ∧ before.length = i ∧ closer.closes opener ∧
      ∀ is, Say (before.flatten ++ xs) is → ∀ n, openAfter opener n is = some n := by
  subst ho
  rw [List.map_cons, closingText?_eq h, List.map_map] at hc
  obtain ⟨before, xs, ys, after, hlists, hi, hf, hcloses⟩ := exists_of_findCloserIn hc
  refine ⟨before, xs, ys, after, hlists, hi, hcloses, fun is his n => ?_⟩
  obtain ⟨k, hk, hopen⟩ := @openAfter_of_findCloser _ _ _ 0 _ his (by simpa using hf)
  obtain rfl : k = 0 := by omega
  exact hopen n

theorem say_rowInners (rows : List (List Text)) :
    Say (rows.map (Marker.scan ∘ rowText)).flatten (rowInners rows) := by
  induction rows with
  | nil => rfl
  | cons cells rows ih =>
    refine Say.append ?_ ih
    rw [Function.comp_apply, Marker.scan_eq_locateTokens]
    exact say_locateTokens 0 _

section Closing

variable {o : Text} {first final : List Text} {between : List (List Text)}
  (h : tokens (rowText first) = ts ++ .marker o :: us) (ho : opener = ofInner o (joinTokens ts).length)
include h ho

/-- The closing marker of a section inside one row. -/
theorem exists_of_closingText?_one (hc : closingText? opener [rowText first] = some (0, closer)) :
    ∃ mid c rest, us = mid ++ .marker c :: rest ∧
      closer = ofInner c (opener.stop + (joinTokens mid).length) ∧ closer.closes opener ∧
      ∀ n, openAfter opener n (mid.filterMap Token.inner?) = some n := by
  have hrows : closingText? opener ((first :: ([] : List (List Text))).map rowText) = some (0, closer) := hc
  obtain ⟨before, xs, ys, after, hlists, hi, hcloses, hopen⟩ := exists_of_closingText? h ho hrows
  obtain rfl := List.length_eq_zero_iff.1 hi
  obtain ⟨mid, c, rest, hus, hmid, hcloser⟩ := exists_of_locateTokens (List.cons.inj hlists).1
  exact ⟨mid, c, rest, hus, hcloser, hcloses, hopen _ (hmid ▸ say_locateTokens opener.stop mid)⟩

/-- The closing marker of a section over several rows. -/
theorem exists_of_closingText?_more
    (hc : closingText? opener ((first :: (between ++ [final])).map rowText) =
      some (between.length + 1, closer)) :
    ∃ mid c rest, tokens (rowText final) = mid ++ .marker c :: rest ∧
      closer = ofInner c (joinTokens mid).length ∧ closer.closes opener ∧
      ∀ n, openAfter opener n
        (us.filterMap Token.inner? ++ rowInners between ++ mid.filterMap Token.inner?) = some n := by
  obtain ⟨before, xs, ys, after, hlists, hi, hcloses, hopen⟩ := exists_of_closingText? h ho hc
  have hlists' : (locateTokens opener.stop us :: between.map (Marker.scan ∘ rowText)) ++
      [Marker.scan (rowText final)] = before ++ (xs ++ closer :: ys) :: after := by
    simpa using hlists
  obtain ⟨hbefore, hfinal⟩ := List.append_inj hlists' (by simpa using hi.symm)
  obtain ⟨mid, c, rest, hrest, hmid, hcloser⟩ :=
    exists_of_locateTokens ((Marker.scan_eq_locateTokens _).symm.trans (List.cons.inj hfinal).1)
  rw [Nat.zero_add] at hcloser
  refine ⟨mid, c, rest, hrest, hcloser, hcloses, hopen _ ?_⟩
  rw [← hbefore, ← hmid]
  exact ((say_locateTokens opener.stop us).append (say_rowInners between)).append (say_locateTokens 0 mid)

end Closing

/-- **Sections of the name are balanced in what is captured exactly if they are in the rows**, where the
closing marker itself is taken out. -/
theorem Strips.balanced_iff {rows template : List (List Text)} (h : Strips opener closer rows template)
    (hopener : ∀ cells ∈ rows.head?, opener ∈ Marker.scan (rowText cells))
    (hk : opener.kind = .sectionStart)
    (hc : closingText? opener (rows.map rowText) = some (rows.length - 1, closer)) :
    Balanced opener template ↔ Balanced opener rows := by
  -- A list of markers with the two markers of the section, and without them.
  have hsection : ∀ (as cs : List Text) {o c : Text} {k k' : Nat} {bs : List Text}, opener = ofInner o k →
      closer = ofInner c k' → closer.closes opener → (∀ n, openAfter opener n bs = some n) →
      rowInners template = as ++ (bs ++ cs) → rowInners rows = as ++ o :: (bs ++ c :: cs) →
      (Balanced opener template ↔ Balanced opener rows) := by
    intro as cs o c k k' bs ho hcloser hcloses hbs htemplate hrows
    have hopens : (ofInner o 0).opensLike opener := by
      rw [ho] at hk ⊢
      simp only [Marker.opensLike, Marker.sameSection, Bool.and_eq_true, beq_iff_eq]
      exact ⟨hk, rfl, rfl⟩
    rw [hcloser] at hcloses
    rw [Balanced, Balanced, htemplate, hrows, openAfter_section hopens hcloses hbs]
  cases h with
  | @one cells p q q' hp hq hchanged hbehind =>
    obtain ⟨ts, o, us, htokens, hlen, ho⟩ := eq_ofInner_of_mem_scan (hopener cells rfl)
    rw [← hlen] at ho
    obtain ⟨mid, c, rest, rfl, hcloser, hcloses, hopen⟩ := exists_of_closingText?_one htokens ho hc
    refine hsection (ts.filterMap Token.inner?) (rest.filterMap Token.inner?) ho hcloser hcloses hopen ?_ ?_
    · rw [rowInners, List.flatMap_singleton, inners_strip_two hp hq htokens ho hcloser hchanged hbehind]
    · rw [rowInners, List.flatMap_singleton, inners, htokens]
      simp [Token.inner?]
  | @more first final between p q hp hq =>
    obtain ⟨ts, o, us, htokens, hlen, ho⟩ := eq_ofInner_of_mem_scan (hopener first rfl)
    rw [← hlen] at ho
    obtain ⟨mid, c, rest, hrest, hcloser, hcloses, hopen⟩ :=
      exists_of_closingText?_more htokens ho (by simpa using hc)
    refine hsection (ts.filterMap Token.inner?) (rest.filterMap Token.inner?) ho hcloser hcloses hopen ?_ ?_
    · simp only [rowInners, List.flatMap_cons, List.flatMap_append, List.flatMap_nil,
        inners_strip_of_holds hp htokens ho, inners_strip_of_holds hq hrest hcloser, List.append_assoc,
        List.append_nil]
    · simp [rowInners, inners, htokens, hrest, Token.inner?]

/-! ## What the strips take out -/

theorem exists_isFirst (hu : Upright cells) (ho : firstOpener? (rowText cells) = some opener) :
    ∃ p : Place, p.Holds opener cells ∧ p.IsFirst opener.text := by
  obtain ⟨hm, hk⟩ := mem_of_firstOpener? ho
  obtain ⟨p, hp⟩ := hu.inCells opener hm
  refine ⟨p, hp, hp.isFirst hu.simple_tokens hm fun m' hm' he => ?_⟩
  exact start_le_of_firstOpener? ho hm' ((congrArg Marker.Sense.kind he).trans hk)

theorem exists_isLast {last : Marker} (hu : Upright cells) (hl : IsLastOf (rowText cells) closer last) :
    ∃ q : Place, q.Holds last cells ∧ q.IsLast last.text := by
  obtain ⟨q, hq⟩ := hu.inCells last hl.mem
  exact ⟨q, hq, hq.isLast hu.simple_tokens hl.mem fun m' hm' he => hl.last m' hm' (he.trans hl.text)⟩

/-- The texts of the cells that are kept of a row. -/
def RowSnapshot.texts (s : RowSnapshot) : List Text :=
  s.cells.map (·.text)

variable {template : List (List Text)}

/-- A section inside one row. -/
theorem exists_strips_one (hu : Upright cells) (ho : firstOpener? (rowText cells) = some opener)
    (hm : closer ∈ Marker.scan (rowText cells)) (hle : opener.stop ≤ closer.start) :
    ∃ last cells', IsLastOf (rowText cells) closer last ∧ Strips opener last [cells] [cells'] ∧
      ∀ s : RowSnapshot, RowSnapshot.texts s = cells →
        RowSnapshot.texts (RowSnapshot.stripLast closer.text (RowSnapshot.stripFirst opener.text s)) = cells' := by
  obtain ⟨p, hp, hfirst⟩ := exists_isFirst hu ho
  obtain ⟨last, hl⟩ := exists_isLastOf hm
  obtain ⟨q, hq, hlast⟩ := exists_isLast hu hl
  obtain ⟨-, inner, -, -, -, hinner⟩ := eq_ofInner_of_mem_scan hl.mem
  have htext : last.text = Marker.enclose inner := by rw [hinner]; rfl
  have hbehind : p.lead.length + opener.text.length ≤ q.lead.length := by
    obtain ⟨-, i, -, -, -, hi⟩ := eq_ofInner_of_mem_scan (mem_of_firstOpener? ho).1
    have hstop : opener.stop = opener.start + opener.text.length := by rw [hi]; rfl
    rw [hp.2, ← hstop, hq.2]
    exact hle.trans (hl.last closer hm rfl)
  have hcells := hp.1.symm.trans hq.1
  rw [htext] at hcells
  obtain ⟨q', hq', hafter, hbelow⟩ := Place.exists_fill_strip hcells hbehind
  rw [← htext] at hq'
  refine ⟨last, _, hl, .one hp hq hq' ⟨hafter, hbelow⟩, fun s hs => ?_⟩
  rw [← hl.text]
  refine Place.cellTexts_stripLast
    ((Place.cellTexts_stripFirst (hs.trans hp.1) hfirst).trans hq'.symm) ?_
  rwa [Place.IsLast, hafter, hbelow]

/-- A section over several rows. -/
theorem exists_strips_more {first final : List Text} (between : List (List Text)) (hu : Upright first)
    (hu' : Upright final) (ho : firstOpener? (rowText first) = some opener)
    (hm : closer ∈ Marker.scan (rowText final)) :
    ∃ last first' final', IsLastOf (rowText final) closer last ∧
      Strips opener last (first :: (between ++ [final])) (first' :: (between ++ [final'])) ∧
      (∀ s : RowSnapshot, RowSnapshot.texts s = first →
        RowSnapshot.texts (RowSnapshot.stripFirst opener.text s) = first') ∧
      ∀ s : RowSnapshot, RowSnapshot.texts s = final →
        RowSnapshot.texts (RowSnapshot.stripLast closer.text s) = final' := by
  obtain ⟨p, hp, hfirst⟩ := exists_isFirst hu ho
  obtain ⟨last, hl⟩ := exists_isLastOf hm
  obtain ⟨q, hq, hlast⟩ := exists_isLast hu' hl
  refine ⟨last, _, _, hl, .more hp hq, fun s hs => ?_, fun s hs => ?_⟩
  · exact Place.cellTexts_stripFirst (hs.trans hp.1) hfirst
  · rw [← hl.text]
    exact Place.cellTexts_stripLast (hs.trans hq.1) hlast

/-! ## What is captured -/

theorem IsLastOf.takenOut {last : Marker} {rows : List (List Text)} (hl : IsLastOf (rowText cells) closer last)
    (hcells : rows.getLast? = some cells) (hm : closer ∈ Marker.scan (rowText cells))
    (hs : Strips opener last rows template)
    (ho : ∀ cells ∈ rows.head?, firstOpener? (rowText cells) = some opener)
    (hc : closingText? opener (rows.map rowText) = some (rows.length - 1, closer)) :
    TakenOut opener closer rows template last where
  isLast cells' hcells' := Option.some.inj (hcells.symm.trans hcells') ▸ hl
  eq_closer_iff := by simpa [hcells] using hl.eq_iff hm
  strips := hs
  balanced he := by
    subst he
    refine hs.balanced_iff (fun cells' h => (mem_of_firstOpener? (ho cells' h)).1) ?_ hc
    cases hs <;> exact (mem_of_firstOpener? (ho _ rfl)).2

theorem exists_takenOut_one (hu : Upright cells) (ho : firstOpener? (rowText cells) = some opener)
    (hc : closingText? opener ([cells].map rowText) = some (0, closer)) :
    ∃ last cells', TakenOut opener closer [cells] [cells'] last ∧
      ∀ s : RowSnapshot, RowSnapshot.texts s = cells →
        RowSnapshot.texts (RowSnapshot.stripLast closer.text (RowSnapshot.stripFirst opener.text s)) = cells' := by
  obtain ⟨ts, o, us, htokens, hlen, hmark⟩ := eq_ofInner_of_mem_scan (mem_of_firstOpener? ho).1
  rw [← hlen] at hmark
  obtain ⟨mid, c, rest, rfl, hcloser, -⟩ := exists_of_closingText?_one htokens hmark hc
  have hm : closer ∈ Marker.scan (rowText cells) := by
    rw [Marker.scan_eq_locateTokens, htokens, Marker.locateTokens_append, Marker.locateTokens,
      Marker.locateTokens_append, hcloser, hmark, Nat.zero_add]
    exact List.mem_append_right _ (List.mem_cons_of_mem _ (List.mem_append_right _ List.mem_cons_self))
  obtain ⟨last, cells', hl, hs, hsnapshot⟩ := exists_strips_one hu ho hm (by rw [hcloser]; exact Nat.le_add_right ..)
  exact ⟨last, cells', hl.takenOut rfl hm hs (by simpa using ho) hc, hsnapshot⟩

theorem exists_takenOut_more {first final : List Text} {between : List (List Text)} (hu : Upright first)
    (hu' : Upright final) (ho : firstOpener? (rowText first) = some opener)
    (hc : closingText? opener ((first :: (between ++ [final])).map rowText) =
      some (between.length + 1, closer)) :
    ∃ last first' final', TakenOut opener closer (first :: (between ++ [final]))
        (first' :: (between ++ [final'])) last ∧
      (∀ s : RowSnapshot, RowSnapshot.texts s = first →
        RowSnapshot.texts (RowSnapshot.stripFirst opener.text s) = first') ∧
      ∀ s : RowSnapshot, RowSnapshot.texts s = final →
        RowSnapshot.texts (RowSnapshot.stripLast closer.text s) = final' := by
  obtain ⟨ts, o, us, htokens, hlen, hmark⟩ := eq_ofInner_of_mem_scan (mem_of_firstOpener? ho).1
  rw [← hlen] at hmark
  obtain ⟨mid, c, rest, hfinal, hcloser, -⟩ := exists_of_closingText?_more htokens hmark hc
  have hm : closer ∈ Marker.scan (rowText final) := by
    rw [Marker.scan_eq_locateTokens, hfinal, Marker.locateTokens_append, hcloser, Nat.zero_add]
    exact List.mem_append_right _ List.mem_cons_self
  obtain ⟨last, first', final', hl, hs, hfirst', hfinal'⟩ := exists_strips_more between hu hu' ho hm
  refine ⟨last, first', final', hl.takenOut ?_ hm hs (by simpa using ho) (by simpa using hc), hfirst', hfinal'⟩
  rw [← List.cons_append, List.getLast?_concat]

/-! ## Rows of a table -/

/-- The texts of the cells of a row. -/
def cellTexts (row : Node) : List Text :=
  row.children.map Node.text

theorem texts_captureRow (row : Node) : RowSnapshot.texts row.captureRow = cellTexts row := by
  rw [RowSnapshot.texts, Node.captureRow, List.map_map, cellTexts]
  rfl

theorem rowText_cellTexts {row : Node} (h : row.isRow) : rowText (cellTexts row) = row.text := by
  have htexts : ∀ nodes : List Node, Node.texts nodes = nodes.map Node.text := by
    intro nodes
    induction nodes with
    | nil => rw [Node.texts, List.map_nil]
    | cons n nodes ih => rw [Node.texts, ih, List.map_cons]
  cases row with
  | row attributes cells rendered =>
    rw [Node.text, htexts]
    rfl
  | _ => cases h

/-- A closing marker among texts is found without those behind them. -/
theorem closingText?_append (opener : Marker) (t : Text) (texts more : List Text) :
    closingText? opener (t :: texts) =
      (closingText? opener (t :: texts ++ more)).filter fun r => decide (r.1 ≤ texts.length) := by
  have h := findCloserIn_append opener 1
    (((markersOf t).filter fun m => opener.start < m.start) :: texts.map markersOf) (more.map markersOf)
  simp only [List.length_cons, List.length_map, Nat.lt_succ_iff] at h
  simp only [List.cons_append, closingText?, List.map_append]
  exact h

theorem count_le_of_closingText? {texts : List Text} {count : Nat}
    (h : closingText? opener (t :: texts) = some (count, closer)) : count ≤ texts.length := by
  have hfilter := closingText?_append opener t texts []
  rw [List.append_nil, h] at hfilter
  by_contra hle
  simp [Option.filter, hle] at hfilter

/-- The section of a group of rows begins in its first row and ends in its last one. -/
theorem exists_of_mem_groups {rows g : List Node} (h : .repeated opener (some closer) g ∈ groups rows) :
    ∃ r rs, g = r :: rs ∧ firstOpener? r.text = some opener ∧
      closingText? opener (g.map Node.text) = some (rs.length, closer) := by
  fun_induction groups rows with
  | case1 => cases h
  | case2 r rs ho ih =>
    rcases List.mem_cons.1 h with h | h
    · cases h
    · exact ih h
  | case3 r rs o ho hc ih =>
    rcases List.mem_cons.1 h with h | h
    · cases h
    · exact ih h
  | case4 r rs o ho count c hc ih =>
    rcases List.mem_cons.1 h with h | h
    · cases h
      refine ⟨r, rs.take count, rfl, ?_, ?_⟩
      · rw [rowOpener?] at ho
        split at ho
        · cases ho
        · exact ho
      · have hcount : count ≤ rs.length := by simpa using count_le_of_closingText? hc
        rw [List.map_cons, ← List.take_append_drop count rs, List.map_append, ← List.cons_append] at hc
        rw [List.map_cons, closingText?_append opener _ _ ((rs.drop count).map Node.text), hc]
        simp [Option.filter, hcount]
    · exact ih h

/-- **The rows of a section are captured without its markers.** -/
theorem captured_rows {rows g : List Node} (h : .repeated opener (some closer) g ∈ groups rows)
    (hrows : ∀ row ∈ g, row.isRow) (hu : ∀ row ∈ g, Upright (cellTexts row)) :
    ∃ last, TakenOut opener closer (g.map cellTexts)
      ((captureRows opener (some closer) g).map RowSnapshot.texts) last := by
  obtain ⟨r, rs, rfl, ho, hc⟩ := exists_of_mem_groups h
  have htexts : (r :: rs).map Node.text = ((r :: rs).map cellTexts).map rowText := by
    rw [List.map_map]
    exact List.map_congr_left fun row hrow => (rowText_cellTexts (hrows row hrow)).symm
  rw [htexts] at hc
  rw [← rowText_cellTexts (hrows r List.mem_cons_self)] at ho
  rcases List.eq_nil_or_concat rs with rfl | ⟨between, q, rfl⟩
  · obtain ⟨last, cells', hout, hsnapshot⟩ := exists_takenOut_one (hu r List.mem_cons_self) ho hc
    have hcaptured := hsnapshot r.captureRow (texts_captureRow r)
    exact ⟨last, by simpa [captureRows, hcaptured] using hout⟩
  · rw [List.concat_eq_append] at *
    have hq : q ∈ r :: (between ++ [q]) := by simp
    have hclosing : closingText? opener
        ((cellTexts r :: (between.map cellTexts ++ [cellTexts q])).map rowText) =
          some ((between.map cellTexts).length + 1, closer) := by
      simpa using hc
    obtain ⟨last, first', final', hout, hfirst, hfinal⟩ :=
      exists_takenOut_more (hu r List.mem_cons_self) (hu q hq) ho hclosing
    have hfirst' := hfirst r.captureRow (texts_captureRow r)
    have hfinal' := hfinal q.captureRow (texts_captureRow q)
    have hbetween : between.map (RowSnapshot.texts ∘ Node.captureRow) = between.map cellTexts :=
      List.map_congr_left fun row _ => texts_captureRow row
    exact ⟨last, by simpa [captureRows, hfirst', hfinal', hbetween] using hout⟩

/-! ## Blocks -/

/-- The text of a block as the one cell of a row. Of other blocks than paragraphs there is none. -/
def blockTexts (n : Node) : List Text :=
  [n.paragraph?.elim [] (·.text)]

theorem paragraph_or_blockTexts (n : Node) :
    (∃ p rendered, n = .paragraph p rendered) ∨ blockTexts n = [[]] := by
  cases n with
  | paragraph p rendered => exact .inl ⟨p, rendered, rfl⟩
  | _ => exact .inr rfl

theorem rowText_singleton (t : Text) : rowText [t] = t :=
  rfl

/-- In a text by itself every marker has its place. -/
theorem upright_singleton (h : ∀ i ∈ inners t, Marker.Simple i) : Upright [t] where
  simple := h
  inCells m hm := by
    obtain ⟨ts, i, us, htokens, hlen, hmark⟩ := eq_ofInner_of_mem_scan hm
    have htext := congrArg joinTokens htokens
    rw [Marker.joinTokens_tokens, Marker.joinTokens_append, Marker.joinTokens_cons] at htext
    refine ⟨⟨[], joinTokens ts, joinTokens us, []⟩, ?_, by simpa [Place.lead] using hlen⟩
    rw [rowText_singleton] at htext
    rw [hmark]
    exact congrArg (fun t => [t]) (htext.trans (List.append_assoc ..).symm)

theorem texts_stripFirst_singleton (x t : Text) :
    RowSnapshot.texts (RowSnapshot.stripFirst x { cells := [{ text := t }] }) = [withoutFirst x t] := by
  rw [RowSnapshot.texts, RowSnapshot.stripFirst, changeFirstCell]
  cases hc : Text.cutFirst? x t with
  | some r => simp [Text.contains, hc]
  | none => simp [Text.contains, hc, changeFirstCell, withoutFirst]

theorem texts_stripLast_singleton (x t : Text) :
    RowSnapshot.texts (RowSnapshot.stripLast x { cells := [{ text := t }] }) = [withoutLast x t] := by
  rw [RowSnapshot.texts, RowSnapshot.stripLast, List.reverse_singleton, changeFirstCell]
  by_cases hc : Text.contains x t
  · simp [hc]
  · have hnone : Text.cutLast? x t = none := by
      cases hl : Text.cutLast? x t with
      | none => rfl
      | some r => exact absurd (Text.contains_iff.2 ⟨_, _, Text.eq_append_of_cutLast? hl⟩) hc
    simp [hc, changeFirstCell, withoutLast, hnone]

/-- **The blocks of a section are captured without its markers.** A paragraph of which only blanks are
left is left out. -/
theorem captured_blocks {p : Paragraph} {ns : List Node} {count : Nat}
    (ho : firstOpener? p.text = some opener)
    (hc : blockSection? opener (.paragraph p :: ns) = some (count + 1, closer))
    (hp : ∀ i ∈ inners p.text, Marker.Simple i)
    (hns : ∀ q rendered, ns[count]? = some (.paragraph q rendered) → ∀ i ∈ inners q.text, Marker.Simple i) :
    ∃ q rendered last t u, ns[count]? = some (.paragraph q rendered) ∧
      TakenOut opener closer ([p.text] :: ((ns.take count).map blockTexts ++ [[q.text]]))
        ([t] :: ((ns.take count).map blockTexts ++ [[u]])) last ∧
      captureBlocks opener closer (.paragraph p) (ns.take count) ns[count]? =
        (captureBoundary (fun _ => t) (.paragraph p)).toList ++ (ns.take count).map captureBlock ++
          (captureBoundary (fun _ => u) (.paragraph q rendered)).toList := by
  have hcount : count < ns.length := by
    have := count_le_of_closingText? hc
    rw [List.length_map] at this
    omega
  obtain ⟨n, hn⟩ : ∃ n, ns[count]? = some n := ⟨_, List.getElem?_eq_getElem hcount⟩
  have hsplit : ns = ns.take count ++ n :: ns.drop (count + 1) := by
    obtain ⟨_, rfl⟩ := List.getElem?_eq_some_iff.1 hn
    rw [List.cons_getElem_drop_succ, List.take_append_drop]
  have hsection : closingText? opener (([p.text] :: ((ns.take count).map blockTexts ++ [blockTexts n])).map
      rowText) = some (((ns.take count).map blockTexts).length + 1, closer) := by
    have happend := closingText?_append opener p.text ((ns.take count ++ [n]).map (rowText ∘ blockTexts))
      ((ns.drop (count + 1)).map (rowText ∘ blockTexts))
    rw [List.cons_append, ← List.map_append, List.append_assoc, List.singleton_append, ← hsplit] at happend
    have hall : closingText? opener (p.text :: ns.map (rowText ∘ blockTexts)) = some (count + 1, closer) := hc
    rw [hall] at happend
    have hlen : min count ns.length = count := by omega
    simpa [Option.filter, hlen, rowText_singleton] using happend
  have hu : Upright (blockTexts n) := by
    rcases paragraph_or_blockTexts n with ⟨q, rendered, rfl⟩ | he
    · exact upright_singleton (hns q rendered hn)
    · exact he ▸ upright_singleton (by rw [inners_nil]; simp)
  obtain ⟨last, first', final', hout, hfirst, hfinal⟩ :=
    exists_takenOut_more (upright_singleton hp) hu ho hsection
  obtain ⟨q, rendered, rfl⟩ : ∃ q rendered, n = .paragraph q rendered := by
    have hlast := (hout.isLast (blockTexts n) (by rw [← List.cons_append, List.getLast?_concat]; rfl)).mem
    rcases paragraph_or_blockTexts n with hq | he
    · exact hq
    · rw [he, rowText_singleton, Marker.scan_eq_locateTokens, Marker.tokens_nil] at hlast
      cases hlast
  obtain rfl := hfirst { cells := [{ text := p.text }] } rfl
  obtain rfl := hfinal { cells := [{ text := q.text }] } rfl
  rw [texts_stripFirst_singleton, texts_stripLast_singleton] at hout
  refine ⟨q, rendered, last, _, _, hn, hout, ?_⟩
  rw [hn]
  rfl

/-- **What is captured of a section is the section without its markers**: the opening marker, and the
last marker of the closing one's text in the last row, or in the last paragraph. -/
theorem captured_without_markers (opener closer : Marker) :
    (∀ rows g : List Node, .repeated opener (some closer) g ∈ groups rows →
      (∀ row ∈ g, row.isRow ∧ Upright (cellTexts row)) →
      ∃ last, TakenOut opener closer (g.map cellTexts)
        ((captureRows opener (some closer) g).map RowSnapshot.texts) last) ∧
    ∀ (p : Paragraph) (ns : List Node) (count : Nat),
      firstOpener? p.text = some opener →
      blockSection? opener (.paragraph p :: ns) = some (count + 1, closer) →
      (∀ i ∈ inners p.text, Marker.Simple i) →
      (∀ q rendered, ns[count]? = some (.paragraph q rendered) → ∀ i ∈ inners q.text, Marker.Simple i) →
      ∃ q rendered last t u, ns[count]? = some (.paragraph q rendered) ∧
        TakenOut opener closer ([p.text] :: ((ns.take count).map blockTexts ++ [[q.text]]))
          ([t] :: ((ns.take count).map blockTexts ++ [[u]])) last ∧
        captureBlocks opener closer (.paragraph p) (ns.take count) ns[count]? =
          (captureBoundary (fun _ => t) (.paragraph p)).toList ++ (ns.take count).map captureBlock ++
            (captureBoundary (fun _ => u) (.paragraph q rendered)).toList :=
  ⟨fun _ _ h hg => captured_rows h (fun row hrow => (hg row hrow).1) fun row hrow => (hg row hrow).2,
    fun _ _ _ ho hc hp hns => captured_blocks ho hc hp hns⟩

/-- The opening marker of the items, at the start of a text. -/
def itemsOpener : Marker :=
  ofInner "#Items" 0

/-- The closing marker of the items, at an offset. -/
def itemsCloser (offset : Nat) : Marker :=
  ofInner "/Items" offset

/-- The items over three paragraphs. -/
def priceLines : List Node :=
  [.paragraph (markersParagraph ["Name".toList]), .paragraph (markersParagraph ["/Items".toList])]

theorem groups_priceList : .repeated itemsOpener (some (itemsCloser 18))
    [.row "i".toList [.cell "c".toList
      [Node.ofText (Marker.enclose "#Items" ++ Marker.enclose "Name" ++ Marker.enclose "/Items")]]] ∈
      groups priceList := by
  have hheading : rowOpener? (.row "h".toList [.cell [] [Node.ofText "Item"]]) = none := by decide +kernel
  have hitems : rowOpener? (.row "i".toList [.cell "c".toList [Node.ofText
      (Marker.enclose "#Items" ++ Marker.enclose "Name" ++ Marker.enclose "/Items")]]) = some itemsOpener := by
    decide +kernel
  have hcloser : closingText? itemsOpener ((priceList.drop 1).map Node.text) = some (0, itemsCloser 18) := by
    decide +kernel
  rw [priceList, groups, hheading]
  dsimp only
  rw [groups, hitems]
  dsimp only
  rw [priceList, List.drop_succ_cons, List.drop_zero] at hcloser
  rw [hcloser]
  simp

/-- The row with the items, and the paragraphs with them, are captured without the markers of the items. -/
theorem captured_priceList :
    (∃ last, TakenOut itemsOpener (itemsCloser 18)
      [[Marker.enclose "#Items" ++ Marker.enclose "Name" ++ Marker.enclose "/Items"]]
      [[Marker.enclose "Name"]] last) ∧
    ∃ last t u, Text.allBlank t ∧ Text.allBlank u ∧ TakenOut itemsOpener (itemsCloser 0)
      [[Marker.enclose "#Items"], [Marker.enclose "Name"], [Marker.enclose "/Items"]]
      [[t], [Marker.enclose "Name"], [u]] last := by
  constructor
  · have h := (captured_without_markers _ _).1 _ _ groups_priceList (by
      intro row hrow
      obtain rfl := List.mem_singleton.1 hrow
      exact ⟨rfl, upright_singleton (by decide +kernel)⟩)
    have hcaptured : (captureRows itemsOpener (some (itemsCloser 18)) [.row "i".toList [.cell "c".toList
        [Node.ofText (Marker.enclose "#Items" ++ Marker.enclose "Name" ++ Marker.enclose "/Items")]]]).map
        RowSnapshot.texts = [[Marker.enclose "Name"]] := by
      decide +kernel
    rw [hcaptured] at h
    exact h
  · have hclosing : ∀ q rendered, priceLines[1]? = some (.paragraph q rendered) →
        q = markersParagraph ["/Items".toList] := by
      intro q rendered hq
      simp only [priceLines, List.getElem?_cons_succ, List.getElem?_cons_zero, Option.some.injEq,
        Node.paragraph.injEq] at hq
      exact hq.1.symm
    obtain ⟨q, rendered, last, t, u, hq, hout, hcaptured⟩ := (captured_without_markers itemsOpener (itemsCloser 0)).2
      (markersParagraph ["#Items".toList]) priceLines 1 (by decide +kernel)
      (by decide +kernel) (by decide +kernel) fun q rendered hq => by
        rw [hclosing q rendered hq]
        decide +kernel
    obtain rfl := hclosing q rendered hq
    have hlength : (captureBlocks itemsOpener (itemsCloser 0) (.paragraph (markersParagraph ["#Items".toList]))
        (priceLines.take 1) priceLines[1]?).length = 1 := by
      decide +kernel
    have hblank : ∀ {t : Text} {p : Paragraph} {r : Bool},
        (captureBoundary (fun _ => t) (.paragraph p r)).toList.length = 0 → Text.allBlank t := by
      intro t p r h
      by_contra hb
      simp [captureBoundary, hb] at h
    rw [hcaptured, List.length_append, List.length_append, List.length_map] at hlength
    have hone : (priceLines.take 1).length = 1 := rfl
    refine ⟨last, t, u, hblank (p := markersParagraph ["#Items".toList]) (r := false) (by omega),
      hblank (p := markersParagraph ["/Items".toList]) (r := rendered) (by omega), hout⟩

end MailMerge.Section
