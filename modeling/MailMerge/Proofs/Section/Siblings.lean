import MailMerge.Proofs.Section.Left
import MailMerge.Proofs.Section.Within

/-!
# Sections among sibling blocks

Sibling blocks are arranged if each paragraph that a section begins in either holds the whole section
and sections are nested in it, or begins a section that goes on to a later paragraph, with sections
nested in each of the paragraphs that it goes through. What is in no section are the strays: opening
markers that are never closed, closing markers that nothing opens, and markers of other kinds.

**`expandBlocks_leaves_no_section`**: when arranged blocks are expanded, no section is left among them.
-/

namespace MailMerge.Section

open Marker (Token tokens joinTokens charTokens ofInner classify locateTokens)
open Merging (Gives gives_bind_iff gives_pure_iff gives_mapM_iff)

variable {settings : Settings} {c : Context} {t : Text} {is js ss : List Text}

/-! ## Taking out the markers of a section -/

theorem Dialect.Around.inners_withoutMarker {D : Dialect} {ts us : List Token} {inner : Text}
    (h : D.Around ts inner us) (marker : Text) :
    inners (withoutMarker (joinTokens ts) marker (joinTokens us)) =
      ts.filterMap Token.inner? ++ us.filterMap Token.inner? := by
  obtain ⟨ts', us', a, b, rfl, rfl, -, ht⟩ := h.exists_withoutMarker marker
  simp only [inners, ht, List.filterMap_append, filterMap_charTokens, List.append_nil, List.nil_append]

theorem Dialect.Around.inners_eq {D : Dialect} {ts us : List Token} {inner : Text}
    (h : D.Around ts inner us) (ht : t = joinTokens ts ++ Marker.enclose inner ++ joinTokens us) :
    inners t = ts.filterMap Token.inner? ++ inner :: us.filterMap Token.inner? := by
  rw [inners, ht, List.append_assoc, Marker.tokens_joinTokens_append h.sealed,
    Marker.tokens_enclose h.free, h.rest, List.filterMap_append]
  rfl

theorem exists_occurrence {ts : List Token} {inner : Text} (h : inner ∈ ts.filterMap Token.inner?) :
    ∃ a b, joinTokens ts = a ++ Marker.enclose inner ++ b := by
  obtain ⟨k, hk, hi⟩ := List.mem_filterMap.1 h
  obtain ⟨ts, us, rfl⟩ := List.append_of_mem hk
  cases k with
  | char ch => cases hi
  | marker i =>
    obtain rfl := Option.some.inj hi
    exact ⟨joinTokens ts, joinTokens us, by simp [Token.text]⟩

theorem exists_occurrence_of_inners {o : Text} (h : inners t = is ++ o :: js) :
    ∃ a b, t = a ++ Marker.enclose o ++ b := by
  have hmem : o ∈ (tokens t).filterMap Token.inner? := by
    rw [show (tokens t).filterMap Token.inner? = _ from h]
    simp
  have := exists_occurrence hmem
  rwa [Marker.joinTokens_tokens] at this

theorem append_cons_inj {α : Type} {as bs xs ys : List α} {o : α} (ha : o ∉ as) (hx : o ∉ xs)
    (h : as ++ o :: bs = xs ++ o :: ys) : as = xs ∧ bs = ys := by
  induction as generalizing xs with
  | nil =>
    cases xs with
    | nil => exact ⟨rfl, (List.cons.inj h).2⟩
    | cons x xs =>
      obtain ⟨rfl, -⟩ := List.cons.inj h
      exact absurd List.mem_cons_self hx
  | cons a as ih =>
    cases xs with
    | nil =>
      obtain ⟨rfl, -⟩ := List.cons.inj h
      exact absurd List.mem_cons_self ha
    | cons x xs =>
      obtain ⟨rfl, htail⟩ := List.cons.inj h
      obtain ⟨rfl, rfl⟩ := ih (fun h => ha (List.mem_cons_of_mem _ h))
        (fun h => hx (List.mem_cons_of_mem _ h)) htail
      exact ⟨rfl, rfl⟩

/-- The first marker of its text is taken out. -/
theorem inners_withoutFirst {D : Dialect} {o : Text} (ht : D.Template t) (hf : Text.FreeOf Marker.closing o)
    (h : inners t = is ++ o :: js) (ho : o ∉ is) : inners (withoutFirst (Marker.enclose o) t) = is ++ js := by
  obtain ⟨a, b, hab⟩ := exists_occurrence_of_inners h
  unfold withoutFirst
  cases hc : Text.cutFirst? (Marker.enclose o) t with
  | none => exact absurd hab (Text.cutFirst?_eq_none_iff.1 hc a b)
  | some p =>
    have he := Text.eq_append_of_cutFirst? hc
    obtain ⟨ts, us, ha, h₁, h₂⟩ := ht.exists_around hf he
    have hts : o ∉ ts.filterMap Token.inner? := by
      intro hm
      obtain ⟨a, b, hab⟩ := exists_occurrence hm
      have hfree := Text.freeOf_of_cutFirst? hc
      rw [← h₁, hab, Text.FreeOf] at hfree
      have := (Text.prefix_of_cutFirst? (a := a) (b := b ++ Marker.enclose o) (by simpa using hfree)).length_le
      simp only [List.length_append, Marker.enclose, Marker.opening, List.length_cons] at this
      omega
    rw [← h₁, ← h₂] at he
    obtain ⟨rfl, rfl⟩ := append_cons_inj hts ho ((ha.inners_eq he).symm.trans h)
    have := ha.inners_withoutMarker (Marker.enclose o)
    rwa [h₁, h₂] at this

/-- The last marker of its text is taken out. -/
theorem inners_withoutLast {D : Dialect} {o : Text} (ht : D.Template t) (hf : Text.FreeOf Marker.closing o)
    (h : inners t = is ++ o :: js) (ho : o ∉ js) : inners (withoutLast (Marker.enclose o) t) = is ++ js := by
  obtain ⟨a, b, hab⟩ := exists_occurrence_of_inners h
  obtain ⟨before, after, hc, -⟩ := Text.exists_cutLast? (Marker.enclose o) a b
  rw [← hab] at hc
  unfold withoutLast
  rw [hc]
  dsimp only
  have he := Text.eq_append_of_cutLast? hc
  obtain ⟨ts, us, ha, h₁, h₂⟩ := ht.exists_around hf he
  have hus : o ∉ us.filterMap Token.inner? := by
    intro hm
    obtain ⟨x, y, hxy⟩ := exists_occurrence hm
    obtain ⟨before', after', hc', hle⟩ :=
      Text.exists_cutLast? (Marker.enclose o) (before ++ Marker.enclose o ++ x) y
    rw [show before ++ Marker.enclose o ++ x ++ Marker.enclose o ++ y = t by
      rw [he, ← h₂, hxy]
      simp, hc] at hc'
    obtain ⟨-, rfl⟩ := Prod.mk.inj (Option.some.inj hc')
    rw [← h₂, hxy] at hle
    simp only [List.length_append, Marker.enclose, Marker.opening, List.length_cons] at hle
    omega
  rw [← h₁, ← h₂] at he
  have hrev := congrArg List.reverse ((ha.inners_eq he).symm.trans h)
  simp only [List.reverse_append, List.reverse_cons, List.append_assoc, List.singleton_append] at hrev
  obtain ⟨hjs, his⟩ := append_cons_inj (fun hm => hus (List.mem_reverse.1 hm))
    (fun hm => ho (List.mem_reverse.1 hm)) hrev
  rw [← List.reverse_injective hjs, ← List.reverse_injective his, ← h₁, ← h₂]
  exact ha.inners_withoutMarker (Marker.enclose o)

/-! ## The search among blocks -/

/-- The markers of a paragraph. Of other blocks only their paragraphs' own siblings have to do with them. -/
def nodeInners (n : Node) : List Text :=
  n.paragraph?.elim [] fun p => inners p.text

/-- The markers of the paragraphs among blocks, in order. -/
def blockInners (ns : List Node) : List Text :=
  ns.flatMap nodeInners

/-- The markers of a block at their places. -/
def nodeMarkers (n : Node) : List Marker :=
  Marker.scan (n.paragraph?.elim [] (·.text))

variable {opener : Marker} {depth d : Int} {p q : Paragraph} {r : Bool} {ns : List Node} {o e : Text}
  {ts us : List Token}

theorem Say.append {ms ms' : List Marker} (h : Say ms is) (h' : Say ms' js) :
    Say (ms ++ ms') (is ++ js) := by
  rw [Say, List.map_append, h, h', List.map_append]

theorem say_nodeMarkers (n : Node) : Say (nodeMarkers n) (nodeInners n) := by
  have hscan : ∀ t, Say (Marker.scan t) (inners t) := fun t => by
    rw [Marker.scan_eq_locateTokens]
    exact say_locateTokens 0 (tokens t)
  cases n with
  | paragraph p rendered => exact hscan p.text
  | _ => exact (hscan []).trans (by rw [inners_nil]; rfl)

theorem say_blockInners (ns : List Node) : Say (ns.map nodeMarkers).flatten (blockInners ns) := by
  induction ns with
  | nil => rfl
  | cons n ns ih => exact (say_nodeMarkers n).append ih

theorem findCloserIn_filter (lists : List (List Marker)) :
    findCloserIn opener depth (lists.map (List.filter fun m => m.kind.isSection)) =
      findCloserIn opener depth lists := by
  induction lists generalizing depth with
  | nil => rfl
  | cons ms lists ih =>
    rw [List.map_cons, findCloserIn, findCloserIn, findCloser_filter]
    simp only [ih]

/-- The search goes over texts in which the section does not end. -/
theorem findCloserIn_over {lists : List (List Marker)}
    (h : findCloser opener depth lists.flatten = (none, d)) (rest : List (List Marker)) :
    findCloserIn opener depth (lists ++ rest) =
      (findCloserIn opener d rest).map fun found => (found.1 + lists.length, found.2) := by
  induction lists generalizing depth with
  | nil =>
    obtain ⟨-, rfl⟩ := Prod.mk.inj h
    cases hf : findCloserIn opener depth rest <;> simp [hf]
  | cons ms lists ih =>
    rw [List.flatten_cons, findCloser_append] at h
    rw [List.cons_append, findCloserIn]
    cases hc : findCloser opener depth ms with
    | mk closer depth' =>
      rw [hc] at h
      cases closer with
      | some closer => cases h
      | none =>
        dsimp only
        rw [ih h]
        cases hf : findCloserIn opener d rest with
        | none => rfl
        | some found =>
          simp only [Option.map_some, List.length_cons]
          rfl

theorem findCloserIn_none {lists : List (List Marker)}
    (h : (findCloser opener depth lists.flatten).1 = none) : findCloserIn opener depth lists = none := by
  have := findCloserIn_over (Prod.ext h rfl) []
  rw [List.append_nil] at this
  rw [this]
  rfl

/-- The markers of a text behind one of them. -/
theorem filter_scan (h : tokens t = ts ++ .marker o :: us) :
    (Marker.scan t).filter (fun m => (ofInner o (joinTokens ts).length).start < m.start) =
      locateTokens (ofInner o (joinTokens ts).length).stop us := by
  have hb : Between t (joinTokens ts).length ts (.marker o :: us) := ⟨h, rfl⟩
  have hpos : 0 < (Marker.enclose o).length := List.length_pos_iff.2 (text_ne_nil (.marker o))
  rw [Marker.scan_eq_locateTokens, h, Marker.locateTokens_append, List.filter_append,
    Marker.locateTokens, List.filter_cons, Nat.zero_add]
  have hbefore : (locateTokens 0 ts).filter
      (fun m => decide ((ofInner o (joinTokens ts).length).start < m.start)) = [] := by
    refine List.filter_eq_nil_iff.2 fun m hm => ?_
    have := start_lt_of_mem_locateTokens hm
    rw [decide_eq_true_eq]
    show ¬ (joinTokens ts).length < m.start
    omega
  rw [hbefore, if_neg (by simp), List.nil_append]
  refine List.filter_eq_self.2 fun m hm => ?_
  have := le_start_of_mem_locateTokens hm
  rw [decide_eq_true_eq]
  show (joinTokens ts).length < m.start
  omega

/-- The end of a section is looked for behind its opening marker, and in the blocks after it. -/
theorem blockSection?_eq (h : tokens p.text = ts ++ .marker o :: us) (ns : List Node) :
    blockSection? (ofInner o (joinTokens ts).length) (.paragraph p r :: ns) =
      findCloserIn (ofInner o (joinTokens ts).length) 1
        (locateTokens (ofInner o (joinTokens ts).length).stop us :: ns.map nodeMarkers) := by
  rw [← filter_scan h, ← findCloserIn_filter, List.map_cons, List.filter_filter, List.map_map]
  show closingText? _ (p.text :: ns.map _) = _
  rw [closingText?, List.map_map, markersOf, Marker.scanFor, List.filter_filter]
  congr 2
  exact List.filter_congr fun m _ => Bool.and_comm ..

/-- A stray that starts a section has no end among the blocks. -/
theorem blockSection?_stray (h : tokens p.text = ts ++ .marker o :: us)
    (hk : (classify o).kind = .sectionStart)
    (hn : Nested (us.filterMap Token.inner? ++ blockInners ns) ss) (hs : ∀ i ∈ ss, ¬ Ends o i) :
    blockSection? (ofInner o (joinTokens ts).length) (.paragraph p r :: ns) = none := by
  rw [blockSection?_eq h]
  exact findCloserIn_none (findCloser_stray rfl hk hn
    ((say_locateTokens _ us).append (say_blockInners ns)) hs)

/-! ## Arranged blocks -/

/-- A section and what is in it: it is nested, no stray in it is about it, and its strays may be put
together in any order. -/
structure IsWhole (o e : Text) (body inside : List Text) : Prop where
  ends : Ends o e
  nested : Nested body inside
  foreign : ∀ i ∈ inside, ¬ IsAbout o i
  apart : Apart inside

/-- The paragraph holds the whole section that it begins first, and sections are nested in it. -/
inductive Holds (p : Paragraph) : (strays : List Text) → Prop
  | mk {o e : Text} {before body inside after rest : List Text}
      (template : calm.Template p.text)
      (markers : inners p.text = before ++ o :: (body ++ e :: after))
      (first : ∀ i ∈ before, (classify i).kind ≠ .sectionStart)
      (whole : IsWhole o e body inside)
      (nested : Nested after rest) :
      Holds p (before ++ (inside ++ rest))

/-- The section that one paragraph begins first goes on to another one. Sections are nested in each of the
paragraphs from the one to the other, and the strays in them may be put together in any order, as they
are when they are repeated. -/
inductive Spreads (p : Paragraph) (between : List Node) (q : Paragraph) : (strays : List Text) → Prop
  | mk {o e : Text}
      {before after inside ahead behind inside' rest : List Text} {strays : List (List Text)}
      (templates : calm.Template p.text ∧ (∀ n ∈ between, ∀ m ∈ n.paragraph?, calm.Template m.text) ∧
        calm.Template q.text)
      (opening : inners p.text = before ++ o :: after)
      (first : ∀ i ∈ before, (classify i).kind ≠ .sectionStart)
      (closing : inners q.text = ahead ++ e :: behind)
      (last : e ∉ behind)
      (ends : Ends o e)
      (nested : Nested after inside ∧ List.Forall₂ (fun n ss => Nested (nodeInners n) ss) between strays ∧
        Nested ahead inside' ∧ Nested behind rest)
      (foreign : ∀ i ∈ inside ++ strays.flatten ++ inside', ¬ IsAbout o i)
      (apart : Apart (before ++ (inside ++ strays.flatten ++ inside') ++ rest)) :
      Spreads p between q (before ++ (inside ++ strays.flatten ++ inside') ++ rest)

/-- The sections among sibling blocks do not cross, and none hides behind another one's markers. -/
inductive Arranged : List Node → (strays : List Text) → Prop
  | nil : Arranged [] []
  | other {n : Node} {ns : List Node} {ss : List Text} :
      n.paragraph? = none → Arranged ns ss → Arranged (n :: ns) ss
  | strays {p : Paragraph} {rendered : Bool} {ns : List Node} {ss : List Text} :
      Arranged ns ss → Arranged (.paragraph p rendered :: ns) (inners p.text ++ ss)
  | within {p : Paragraph} {ns : List Node} {ss ss' : List Text} :
      Holds p ss → Arranged ns ss' → Arranged (.paragraph p :: ns) (ss ++ ss')
  | across {p q : Paragraph} {between ns : List Node} {rendered : Bool} {ss ss' : List Text} :
      Spreads p between q ss → Arranged ns ss' →
      Arranged (.paragraph p :: (between ++ .paragraph q rendered :: ns)) (ss ++ ss')

theorem blockInners_append (ns ms : List Node) :
    blockInners (ns ++ ms) = blockInners ns ++ blockInners ms :=
  List.flatMap_append

theorem nested_blockInners {between : List Node} {strays : List (List Text)}
    (h : List.Forall₂ (fun n ss => Nested (nodeInners n) ss) between strays) :
    Nested (blockInners between) strays.flatten := by
  induction h with
  | nil => exact .nil
  | cons hn _ ih => exact hn.append ih

theorem Holds.nested (h : Holds p ss) : Nested (inners p.text) ss := by
  cases h with
  | @mk o e before body inside after rest template markers first whole nested =>
    rw [markers]
    exact (nested_self before).append (.pair whole.ends whole.nested whole.foreign whole.apart nested)

theorem Spreads.nested {between : List Node} (h : Spreads p between q ss) (rendered : Bool) :
    Nested (inners p.text ++ blockInners (between ++ [.paragraph q rendered])) ss := by
  cases h with
  | @mk o e before after inside ahead behind inside' rest strays templates opening first closing
      last ends nested foreign apart =>
    obtain ⟨hafter, hbetween, hahead, hbehind⟩ := nested
    have hbody := (hafter.append (nested_blockInners hbetween)).append hahead
    have hinside : Apart (inside ++ strays.flatten ++ inside') := apart.subset
      (List.subset_append_of_subset_left _ (List.subset_append_right _ _))
    have hpair := (nested_self before).append (.pair ends hbody foreign hinside hbehind)
    rw [blockInners_append, opening, show blockInners [.paragraph q rendered] = inners q.text from
      List.append_nil _, closing]
    simpa using hpair

/-- Sections are nested in the markers of arranged blocks. -/
theorem Arranged.nested (h : Arranged ns ss) : Nested (blockInners ns) ss := by
  induction h with
  | nil => exact .nil
  | @other n ns ss hn _ ih =>
    have : nodeInners n = [] := by rw [nodeInners, hn]; rfl
    rw [blockInners, List.flatMap_cons, this]
    exact ih
  | strays _ ih => exact (nested_self _).append ih
  | within h _ ih => exact h.nested.append ih
  | @across p q between ns rendered ss ss' h _ ih =>
    have := (h.nested rendered).append ih
    rw [List.append_assoc, ← blockInners_append, List.append_assoc] at this
    exact this

/-! ## What the scan finds -/

theorem exists_tokens {after : List Text} (h : inners t = is ++ o :: after) :
    ∃ ts us, tokens t = ts ++ .marker o :: us ∧ ts.filterMap Token.inner? = is ∧
      us.filterMap Token.inner? = after :=
  exists_split h

theorem firstOpener?_eq (h : tokens t = ts ++ .marker o :: us) (hk : (classify o).kind = .sectionStart)
    (hfirst : ∀ i ∈ ts.filterMap Token.inner?, (classify i).kind ≠ .sectionStart) :
    firstOpener? t = some (ofInner o (joinTokens ts).length) := by
  have hbefore : (locateTokens 0 ts).find? (fun m => m.kind == .sectionStart) = none := by
    refine List.find?_eq_none.2 fun m hm hstart => ?_
    have hsense : m.toSense ∈ (ts.filterMap Token.inner?).map classify := by
      rw [← say_locateTokens 0 ts]
      exact List.mem_map_of_mem hm
    obtain ⟨i, hi, he⟩ := List.mem_map.1 hsense
    exact hfirst i hi (by rw [he]; exact beq_iff_eq.1 hstart)
  rw [firstOpener?, Marker.scan_eq_locateTokens, h, Marker.locateTokens_append, List.find?_append,
    hbefore, Option.none_or, Nat.zero_add, Marker.locateTokens]
  exact List.find?_cons_of_pos (beq_iff_eq.2 hk)

/-- The first marker of a paragraph that starts a section, if all its markers are strays, has no end. -/
theorem blockSection?_of_settled (hn : Nested (blockInners ns) ss) (hs : Settled (inners p.text ++ ss))
    (hm : opener ∈ Marker.scan p.text) (hk : opener.kind = .sectionStart) :
    blockSection? opener (.paragraph p r :: ns) = none := by
  obtain ⟨ts, o, us, hb, he⟩ := between_of_mem_scan hm
  rw [he, ← hb.2]
  rw [he] at hk
  have hmarkers : inners p.text = ts.filterMap Token.inner? ++ o :: us.filterMap Token.inner? := by
    rw [inners, hb.1, List.filterMap_append]
    rfl
  rw [hmarkers, List.append_assoc, List.cons_append] at hs
  have hafter := List.pairwise_cons.1 (List.pairwise_append.1 hs).2.1
  exact blockSection?_stray hb.1 hk ((nested_self _).append hn) hafter.1

theorem Holds.exists_section (h : Holds p ss) (ns : List Node) :
    ∃ opener closer, firstOpener? p.text = some opener ∧
      blockSection? opener (.paragraph p :: ns) = some (0, closer) := by
  cases h with
  | @mk o e before body inside after rest template markers first whole nested =>
    obtain ⟨ts, us, htok, rfl, hafter⟩ := exists_tokens markers
    obtain ⟨mid, us', rfl, rfl, -⟩ := exists_split hafter
    have hfind : findCloser (ofInner o (joinTokens ts).length) 1
        (locateTokens (ofInner o (joinTokens ts).length).stop (mid ++ .marker e :: us')) =
          (some (closerAt (joinTokens ts).length o mid e), 0) := by
      rw [Marker.locateTokens_append]
      exact findCloser_pair rfl whole.ends whole.nested whole.foreign (say_locateTokens _ mid) rfl
    refine ⟨_, closerAt (joinTokens ts).length o mid e, firstOpener?_eq htok whole.ends.kinds.1 first, ?_⟩
    rw [blockSection?_eq htok, findCloserIn, hfind]

/-- What is captured of a block to be replayed has none but strays. -/
def BlockTemplate.StraysIn (ss : List Text) : BlockTemplate → Prop
  | .paragraph _ s => calm.Template s.text ∧ ∃ left, Nested (inners s.text) left ∧ left ⊆ ss
  | .node n => n.paragraph? = none

theorem straysIn_captureBoundary {strip : Text → Text} {left : List Text} (ht : calm.Template (strip p.text))
    (hn : Nested (inners (strip p.text)) left) (hs : left ⊆ ss) :
    ∀ b ∈ captureBoundary strip (.paragraph p r), b.StraysIn ss := by
  intro b hb
  unfold captureBoundary at hb
  dsimp only at hb
  split at hb
  · cases hb
  · obtain rfl := Option.some.inj hb
    exact ⟨ht, left, hn, hs⟩

theorem straysIn_captureBlock {n : Node} {left : List Text} (ht : ∀ m ∈ n.paragraph?, calm.Template m.text)
    (hn : Nested (nodeInners n) left) (hs : left ⊆ ss) : (captureBlock n).StraysIn ss := by
  cases n with
  | paragraph p rendered => exact ⟨ht p rfl, left, hn, hs⟩
  | _ => rfl

/-- A section that goes on to another paragraph is found, and what is captured of it has none but strays. -/
theorem Spreads.exists_section {between : List Node} (h : Spreads p between q ss) (ns : List Node) :
    ∃ opener closer, firstOpener? p.text = some opener ∧
      blockSection? opener (.paragraph p :: (between ++ .paragraph q r :: ns)) =
        some (between.length + 1, closer) ∧
      ∀ b ∈ captureBlocks opener closer (.paragraph p) between (some (.paragraph q r)), b.StraysIn ss := by
  cases h with
  | @mk o e before after inside ahead behind inside' rest strays templates opening first closing
      last ends nested foreign apart =>
    obtain ⟨hp, hbetween, hq⟩ := templates
    obtain ⟨hafter, hstrays, hahead, hbehind⟩ := nested
    obtain ⟨ts, us, htok, rfl, rfl⟩ := exists_tokens opening
    obtain ⟨us', vs, hvs, rfl, rfl⟩ := exists_tokens closing
    have hfree : Text.FreeOf Marker.closing o := (Marker.sealed_left htok).2
    have hfree' : Text.FreeOf Marker.closing e := (Marker.sealed_left hvs).2
    refine ⟨_, ofInner e (joinTokens us').length, firstOpener?_eq htok ends.kinds.1 first, ?_, ?_⟩
    · -- Nothing that belongs to the section stands before the closing marker's paragraph.
      have hforeign : ∀ i ∈ inside ++ strays.flatten, ¬ IsAbout o i :=
        fun i hi => foreign i (List.mem_append_left _ hi)
      have hover : findCloser (ofInner o (joinTokens ts).length) 1
          (locateTokens (ofInner o (joinTokens ts).length).stop us ::
            between.map nodeMarkers).flatten = (none, 1) := by
        rw [← List.append_nil (List.flatten _)]
        exact findCloser_foreign rfl ends.kinds.1 (hafter.append (nested_blockInners hstrays))
          ((say_locateTokens _ us).append (say_blockInners between)) hforeign
      have hfind : findCloser (ofInner o (joinTokens ts).length) 1 (nodeMarkers (.paragraph q r)) =
          (some (ofInner e (joinTokens us').length), 0) := by
        show findCloser _ 1 (Marker.scan q.text) = _
        rw [Marker.scan_eq_locateTokens, hvs, Marker.locateTokens_append, Nat.zero_add]
        exact findCloser_pair rfl ends hahead (fun i hi => foreign i (List.mem_append_right _ hi))
          (say_locateTokens 0 us') rfl
      rw [blockSection?_eq htok, List.map_append, ← List.cons_append, findCloserIn_over hover,
        List.map_cons, findCloserIn, hfind]
      simp
    · intro b hb
      rw [captureBlocks, List.mem_append, List.mem_append] at hb
      rcases hb with (hb | hb) | hb
      · have hnot : o ∉ ts.filterMap Token.inner? := fun hm => first o hm ends.kinds.1
        have hmarkers := inners_withoutFirst hp hfree opening hnot
        have hleft : Nested (inners (withoutFirst (Marker.enclose o) p.text))
            (ts.filterMap Token.inner? ++ inside) := by
          rw [hmarkers]
          exact (nested_self _).append hafter
        exact straysIn_captureBoundary (r := false) (Dialect.template_withoutFirst hp hfree) hleft (by simp) b
          (Option.mem_toList.1 hb)
      · obtain ⟨n, hn, rfl⟩ := List.mem_map.1 hb
        obtain ⟨left, hleft, hnest⟩ := Merging.exists_of_forall₂ hstrays hn
        refine straysIn_captureBlock (hbetween n hn) hnest fun i hi => ?_
        have : i ∈ strays.flatten := List.mem_flatten.2 ⟨left, hleft, hi⟩
        simp [this]
      · have hmarkers := inners_withoutLast hq hfree' closing last
        have hleft : Nested (inners (withoutLast (Marker.enclose e) q.text)) (inside' ++ rest) := by
          rw [hmarkers]
          exact hahead.append hbehind
        refine straysIn_captureBoundary (r := r) (Dialect.template_withoutLast hq hfree') hleft ?_ b
          (Option.mem_toList.1 hb)
        intro i hi
        rcases List.mem_append.1 hi with hi | hi <;> simp [hi]

/-! ## Expanded blocks -/

/-- The markers of the paragraphs among the blocks are among the strays, and none of them ends a section
that one before it starts. -/
structure BlocksLeave (ms : List Node) (ss : List Text) : Prop where
  subset : blockInners ms ⊆ ss
  settled : Settled (blockInners ms)

theorem BlocksLeave.append {ms ms' : List Node} {ss' : List Text} (h : BlocksLeave ms ss)
    (h' : BlocksLeave ms' ss') (hs : Settled (ss ++ ss')) : BlocksLeave (ms ++ ms') (ss ++ ss') := by
  obtain ⟨-, -, hcross⟩ := List.pairwise_append.1 hs
  refine ⟨?_, ?_⟩
  · rw [blockInners_append]
    exact List.append_subset.2 ⟨List.subset_append_of_subset_left _ h.subset,
      List.subset_append_of_subset_right _ h'.subset⟩
  · rw [blockInners_append]
    exact List.pairwise_append.2 ⟨h.settled, h'.settled,
      fun i hi j hj => hcross i (h.subset hi) j (h'.subset hj)⟩

theorem blocksLeave_paragraph (h : Leaves p.text ss) : BlocksLeave [.paragraph p r] ss := by
  have he : blockInners [.paragraph p r] = inners p.text := List.append_nil _
  exact ⟨he ▸ h.subset, he ▸ h.settled⟩

theorem blocksLeave_other {n : Node} (h : n.paragraph? = none) : BlocksLeave [n] [] := by
  have he : blockInners [n] = [] := by
    rw [blockInners, List.flatMap_cons, nodeInners, h]
    rfl
  exact ⟨he ▸ List.Subset.refl _, he ▸ .nil⟩

variable {nested : Bool}

/-- A block that is no paragraph stays no paragraph. -/
theorem exists_of_gives_other {n : Node} {ms : List Node} (hn : n.paragraph? = none)
    (hg : (expandBlocks settings c nested (n :: ns)).Gives ms) :
    ∃ made rest, made.paragraph? = none ∧ (expandBlocks settings c nested ns).Gives rest ∧
      made :: rest = ms := by
  cases n with
  | paragraph p rendered => cases hn
  | table attributes rows rendered =>
    cases rendered with
    | false =>
      rw [expandBlocks, Merging.gives_followedBy_iff] at hg
      obtain ⟨_, rest, hmade, hrest, rfl⟩ := hg
      obtain ⟨rows', -, he⟩ := gives_bind_iff.1 hmade
      obtain rfl := gives_pure_iff.1 he
      exact ⟨_, rest, rfl, hrest, rfl⟩
    | true =>
      rw [expandBlocks, Merging.gives_followedBy_pure_iff] at hg
      · obtain ⟨rest, hrest, rfl⟩ := hg
        exact ⟨_, rest, rfl, hrest, rfl⟩
      all_goals simp
  | _ =>
    rw [expandBlocks, Merging.gives_followedBy_pure_iff] at hg
    · obtain ⟨rest, hrest, rfl⟩ := hg
      exact ⟨_, rest, rfl, hrest, rfl⟩
    all_goals simp

/-- A paragraph of strays stays as it is. -/
theorem exists_of_gives_strays {rendered : Bool} {ms : List Node} (hn : Nested (blockInners ns) ss)
    (hs : Settled (inners p.text ++ ss))
    (hg : (expandBlocks settings c nested (.paragraph p rendered :: ns)).Gives ms) :
    ∃ rest, (expandBlocks settings c nested ns).Gives rest ∧ .paragraph p rendered :: rest = ms := by
  cases rendered with
  | true =>
    rw [expandBlocks, Merging.gives_followedBy_pure_iff] at hg
    · exact hg
    all_goals simp
  | false =>
    rw [expandBlocks] at hg
    cases ho : firstOpener? p.text with
    | none =>
      rw [ho] at hg
      exact Merging.gives_followedBy_pure_iff.1 hg
    | some opener =>
      have hmem := List.mem_of_find?_eq_some ho
      have hk : opener.kind = .sectionStart := by
        have := List.find?_some ho
        exact beq_iff_eq.1 this
      rw [ho] at hg
      simp only [blockSection?_of_settled hn hs hmem hk] at hg
      obtain ⟨_, -, hg⟩ := gives_bind_iff.1 hg
      exact Merging.gives_followedBy_pure_iff.1 hg

section Calm

variable (hsymbol : Text.Unopened settings.currencySymbol)
include hsymbol

/-- A block that is replayed has none but strays. -/
theorem nodeInners_expandCopy (hc : c.Calm) {k : Nat} {b : BlockTemplate} {n : Node}
    (hb : b.StraysIn ss) (ha : Apart ss) (h : (expandCopy settings c k b).Gives n) :
    nodeInners n ⊆ ss := by
  cases b with
  | paragraph p s =>
    obtain ⟨ht, left, hleft, hsub⟩ := hb
    rw [expandCopy] at h
    obtain ⟨q, hq, hn⟩ := gives_bind_iff.1 h
    obtain rfl := gives_pure_iff.1 hn
    obtain ⟨t, hrender, he⟩ := gives_bind_iff.1 (Merging.gives_mapImages_iff.1 hq)
    have htext : q.text = t := by
      rw [← gives_pure_iff.1 he]
      split
      · exact Paragraph.text_setText p t
      · exact Paragraph.text_ofText t _ _
    have hleaves := leaves_of_render hsymbol hc ht hleft (ha.subset hsub).settled hrender
    rw [← htext] at hleaves
    exact List.Subset.trans hleaves.subset hsub
  | node m =>
    suffices hnone : n.paragraph? = none by
      rw [nodeInners, hnone]
      exact List.nil_subset ss
    cases m with
    | paragraph p rendered => cases hb
    | table attributes rows rendered =>
      cases rendered with
      | false =>
        rw [expandCopy] at h
        obtain ⟨rows', -, h⟩ := gives_bind_iff.1 h
        obtain ⟨rows'', -, h⟩ := gives_bind_iff.1 h
        obtain rfl := gives_pure_iff.1 h
        rfl
      | true =>
        rw [expandCopy] at h
        · obtain rfl := gives_pure_iff.1 h
          rfl
        · simp
    | _ =>
      rw [expandCopy] at h
      · obtain rfl := gives_pure_iff.1 h
        rfl
      · simp

theorem leaves_renderParagraph (hc : c.Calm) (hp : Holds p ss) (hs : Settled ss)
    (h : (renderParagraph settings c nested p).Gives q) : Leaves q.text ss := by
  have ht : calm.Template p.text := by
    cases hp with
    | mk template => exact template
  obtain ⟨t, hrender, he⟩ := gives_bind_iff.1 (Merging.gives_mapImages_iff.1 h)
  obtain rfl := gives_pure_iff.1 he
  rw [Paragraph.text_setText]
  exact leaves_of_render hsymbol hc ht hp.nested hs hrender

/-- The blocks that a section is repeated to have none but strays. -/
theorem blocksLeave_of_copies (ha : Apart ss) {ms : List Node} (h : ∀ n ∈ ms, ∃ (c : Context) (k : Nat)
      (b : BlockTemplate), c.Calm ∧ b.StraysIn ss ∧ (expandCopy settings c k b).Gives n) :
    BlocksLeave ms ss := by
  have hsub : blockInners ms ⊆ ss := by
    intro i hi
    obtain ⟨n, hn, hi⟩ := List.mem_flatMap.1 hi
    obtain ⟨c, k, b, hc, hb, hg⟩ := h n hn
    exact nodeInners_expandCopy hsymbol hc hb ha hg hi
  exact ⟨hsub, (ha.subset hsub).settled⟩

/-- **Arranged blocks leave their strays** when they are expanded. -/
theorem blocksLeave_of_gives (hc : c.Calm) (h : Arranged ns ss) (hs : Settled ss) {ms : List Node}
    (hg : (expandBlocks settings c nested ns).Gives ms) : BlocksLeave ms ss := by
  induction h generalizing ms with
  | nil =>
    rw [expandBlocks] at hg
    obtain rfl := gives_pure_iff.1 hg
    exact ⟨List.Subset.refl _, .nil⟩
  | @other n ns ss hn _ ih =>
    obtain ⟨made, rest, hmade, hrest, rfl⟩ := exists_of_gives_other hn hg
    exact (blocksLeave_other hmade).append (ih hs hrest) hs
  | @strays p rendered ns ss h ih =>
    have hs' := List.pairwise_append.1 hs
    obtain ⟨rest, hrest, rfl⟩ := exists_of_gives_strays h.nested hs hg
    exact (blocksLeave_paragraph ⟨List.Subset.refl _, hs'.1⟩).append (ih hs'.2.1 hrest) hs
  | @within p ns ss ss' hp h ih =>
    have hs' := List.pairwise_append.1 hs
    obtain ⟨opener, closer, hfirst, hsection⟩ := hp.exists_section ns
    rw [expandBlocks, hfirst] at hg
    simp only [hsection, Merging.gives_followedBy_iff, gives_bind_iff, gives_pure_iff] at hg
    obtain ⟨_, rest, ⟨q, hq, rfl⟩, hrest, rfl⟩ := hg
    refine (blocksLeave_paragraph ?_).append (ih hs'.2.1 hrest) hs
    exact leaves_renderParagraph hsymbol hc hp hs'.1 (Merging.gives_under_iff.1 hq)
  | @across p q between ns rendered ss ss' hp h ih =>
    have hs' := List.pairwise_append.1 hs
    obtain ⟨opener, closer, hfirst, hsection, hcaptured⟩ := hp.exists_section (r := rendered) ns
    have htake : (between ++ .paragraph q rendered :: ns).take between.length = between :=
      List.take_left
    have hlast : (between ++ .paragraph q rendered :: ns)[between.length]? = some (.paragraph q rendered) := by
      rw [List.getElem?_append_right (Nat.le_refl _), Nat.sub_self]
      rfl
    have hdrop : (between ++ .paragraph q rendered :: ns).drop (between.length + 1) = ns := by
      rw [← List.drop_drop, List.drop_left]
      rfl
    rw [expandBlocks, hfirst] at hg
    simp only [hsection, Merging.gives_followedBy_iff] at hg
    rw [htake, hlast, hdrop] at hg
    obtain ⟨made, rest, hmade, hrest, rfl⟩ := hg
    have hapart : Apart ss := by
      cases hp with
      | mk => assumption
    refine (blocksLeave_of_copies hsymbol hapart fun n hn => ?_).append (ih hs'.2.1 hrest) hs
    obtain ⟨records, hrecords, hmade⟩ := gives_bind_iff.1 hmade
    obtain ⟨sets, hsets, he⟩ := gives_bind_iff.1 hmade
    obtain rfl := gives_pure_iff.1 he
    have hcalm := Value.allCalm_iff.1 ((agree_calmRecords hc opener nested).of_gives hrecords).2
    obtain ⟨set, hset, hmem⟩ := List.mem_flatten.1 hn
    obtain ⟨x, hx, hgives⟩ := Merging.exists_of_forall₂ (gives_mapM_iff.1 hsets).flip hset
    have hnodes := Merging.gives_forEach_iff.1 (Merging.gives_shifted_iff.1 hgives)
    obtain ⟨b, -, hb⟩ := Merging.exists_of_forall₂ hnodes.flip hmem
    exact ⟨_, _, b.val, hc.forRow (hcalm _ (List.fst_mem_of_mem_zipIdx hx)) _,
      hcaptured b.val b.property, hb⟩

/-- **No section is left among arranged blocks** that are expanded: no paragraph has a marker that starts
a section and has its end behind it, in the same paragraph or in a later one. -/
theorem expandBlocks_leaves_no_section (hc : c.Calm) (h : Arranged ns ss) (hs : Settled ss) {ms : List Node}
    (hg : (expandBlocks settings c nested ns).Gives ms) (i : Nat) (p : Paragraph) (rendered : Bool)
    (hp : ms[i]? = some (.paragraph p rendered)) :
    ∀ m ∈ Marker.scan p.text, m.kind = .sectionStart → blockSection? m (ms.drop i) = none := by
  intro m hm hk
  have hleave := blocksLeave_of_gives hsymbol hc h hs hg
  have hdrop : ms.drop i = .paragraph p rendered :: ms.drop (i + 1) := by
    obtain ⟨hi, he⟩ := List.getElem?_eq_some_iff.1 hp
    rw [List.drop_eq_getElem_cons hi, he]
  rw [hdrop]
  refine blockSection?_of_settled (nested_self _) ?_ hm hk
  have hsettled := hleave.settled
  rw [← List.take_append_drop i ms, hdrop, blockInners_append] at hsettled
  exact (List.pairwise_append.1 hsettled).2.1

end Calm

/-- The texts of the paragraphs that blocks are expanded to, if the expansion succeeds. -/
def expandedTexts (settings : Settings) (c : Context) (ns : List Node) : Option (List Text) :=
  (expandBlocks settings c false ns).toOption.map fun r => r.1.filterMap fun n => n.paragraph?.map (·.text)

theorem exists_of_expandedTexts {texts : List Text} (h : expandedTexts settings c ns = some texts) :
    ∃ ms, (expandBlocks settings c false ns).Gives ms ∧
      (ms.filterMap fun n => n.paragraph?.map (·.text)) = texts := by
  unfold expandedTexts at h
  cases hr : expandBlocks settings c false ns with
  | error e =>
    rw [hr] at h
    cases h
  | ok r =>
    rw [hr] at h
    exact ⟨r.1, Gives.of_ok rfl, Option.some.inj h⟩

/-- An opening marker that nothing closes, a section in a paragraph with a closing marker behind it that
nothing opens, and a section over three paragraphs with another one in it. -/
def agenda : List (List Text) :=
  [["#Open".toList, "Title"], ["#Tags".toList, "value", "/Tags", "/Lost"], ["#Items".toList],
    ["Name".toList, "#Notes", "value", "/Notes"], ["/Items".toList]]

/-- A paragraph of markers. -/
def markersParagraph (is : List Text) : Paragraph :=
  Paragraph.ofText (is.flatMap Marker.enclose) [] []

/-- Two tags, and two items with notes of their own. -/
def meeting : Context where
  data := [("Title", .text "Monday"), ("Tags", .list [.text "new", .text "short"]),
    ("Items", .list [.record [("Name", .text "Plan"), ("Notes", .list [.text "draft"])],
      .record [("Name", .text "Vote"), ("Notes", .list [.text "open", .text "late"])]])]

theorem template_markersParagraph {is : List Text} (h : is ∈ agenda) :
    calm.Template (markersParagraph is).text := by
  have hmarkers : ∀ is ∈ agenda, ∀ inner ∈ is, Marker.Simple inner ∧ Text.FreeOf Marker.closing inner ∧
      Span.placeholderStart ∉ inner ∧ (FieldSpec.parse inner).default = none := by
    decide +kernel
  replace hmarkers := hmarkers is h
  rw [markersParagraph, Paragraph.text_ofText]
  clear h
  induction is with
  | nil => exact Dialect.template_nil
  | cons i is ih =>
    obtain ⟨hs, hf, hp, hd⟩ := hmarkers i List.mem_cons_self
    refine Dialect.template_enclose_append hf ⟨hs, hf, hp, fun _ u hu => ?_⟩
      (ih fun j hj => hmarkers j (List.mem_cons_of_mem i hj))
    rw [hd] at hu
    cases hu

theorem inners_markersParagraph {is : List Text} (h : is ∈ agenda) :
    inners (markersParagraph is).text = is := by
  have : ∀ is ∈ agenda, inners (markersParagraph is).text = is := by
    decide +kernel
  exact this is h

theorem holds_tags : Holds (markersParagraph ["#Tags".toList, "value", "/Tags", "/Lost"])
    ([] ++ (["value".toList] ++ ["/Lost".toList])) :=
  .mk (o := "#Tags".toList) (e := "/Tags".toList) (template_markersParagraph (by decide))
    (inners_markersParagraph (by decide)) (by decide)
    ⟨by decide +kernel, nested_self _, by decide +kernel, by decide +kernel⟩ (nested_self _)

theorem spreads_items : Spreads (markersParagraph ["#Items".toList])
    [.paragraph (markersParagraph ["Name".toList, "#Notes", "value", "/Notes"])]
    (markersParagraph ["/Items".toList])
    ([] ++ ([] ++ [["Name".toList, "value"]].flatten ++ []) ++ []) := by
  have hnotes : Nested ["Name".toList, "#Notes", "value", "/Notes"] ["Name".toList, "value"] :=
    .stray (.pair (o := "#Notes".toList) (c := "/Notes".toList) (by decide +kernel) (nested_self ["value".toList])
      (by decide +kernel) (by decide +kernel) .nil)
  refine .mk (o := "#Items".toList) (e := "/Items".toList)
    ⟨template_markersParagraph (by decide), ?_, template_markersParagraph (by decide)⟩
    (inners_markersParagraph (by decide)) (by decide) (inners_markersParagraph (by decide)) (by decide)
    (by decide +kernel) ⟨.nil, .cons ?_ .nil, .nil, .nil⟩ (by decide +kernel) (by decide +kernel)
  · intro n hn m hm
    obtain rfl := List.mem_singleton.1 hn
    obtain rfl := Option.some.inj hm
    exact template_markersParagraph (by decide)
  · show Nested (inners _) _
    rw [inners_markersParagraph (by decide)]
    exact hnotes

theorem expandBlocks_agenda : ∃ ms,
    (expandBlocks {} meeting false (agenda.map fun is => .paragraph (markersParagraph is))).Gives ms ∧
    (ms.filterMap fun n => n.paragraph?.map (·.text)) =
      [Marker.enclose "#Open" ++ Marker.enclose "Title", "newshort".toList ++ Marker.enclose "/Lost",
        "Plandraft", "Voteopenlate"] ∧
    ∀ i p rendered, ms[i]? = some (.paragraph p rendered) → ∀ m ∈ Marker.scan p.text,
      m.kind = .sectionStart → blockSection? m (ms.drop i) = none := by
  have htexts : expandedTexts {} meeting (agenda.map fun is => .paragraph (markersParagraph is)) =
      some [Marker.enclose "#Open" ++ Marker.enclose "Title", "newshort".toList ++ Marker.enclose "/Lost",
        "Plandraft", "Voteopenlate"] := by
    decide +kernel
  have hdata : meeting.Calm := ⟨by decide, by decide⟩
  have harranged : Arranged (agenda.map fun is => .paragraph (markersParagraph is))
      (inners (markersParagraph ["#Open".toList, "Title"]).text ++ ([] ++ (["value".toList] ++ ["/Lost".toList]) ++
        ([] ++ ([] ++ [["Name".toList, "value"]].flatten ++ []) ++ [] ++ []))) :=
    .strays (.within holds_tags (.across spreads_items .nil))
  obtain ⟨ms, hms, ht⟩ := exists_of_expandedTexts htexts
  exact ⟨ms, hms, ht, fun i p rendered hp =>
    expandBlocks_leaves_no_section (by decide) hdata harranged (by decide +kernel) hms i p rendered hp⟩

end MailMerge.Section
