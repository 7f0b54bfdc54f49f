import MailMerge.Field.Substitution
import MailMerge.Proofs.Conditional.Kept
import MailMerge.Proofs.Section.Rows
import MailMerge.Proofs.Text.Calm

/-!
# Texts without fields to fill in

An inert text is made of characters that begin no marker, whatever follows them, and of markers that
ask for no field. Inert texts stay inert when they are put together, and when their last newline is
left out. In the calm dialect a brace outside markers is followed by another character of its line,
and defaults of fields are calm.

**`noField_of_inert`**: no part of an inert text is a marker that asks for a field.

**`inert_of_written`**: templates of the calm dialect are filled in with inert texts to inert texts.
-/

namespace MailMerge

open Marker (Token tokens joinTokens charTokens Sealed Simple)
open Node (Level Whole AllWhole)

/-- The text between the braces asks for a field, by a path. -/
def Field.Asked (inner : Text) : Prop :=
  (Marker.classify inner).kind = .field ∧ (FieldSpec.parse inner).path ≠ []

instance : DecidablePred Field.Asked := fun inner =>
  inferInstanceAs (Decidable ((Marker.classify inner).kind = .field ∧ (FieldSpec.parse inner).path ≠ []))

namespace Section

variable {t u : Text} {ts us : List Token}

/-! ## Inert texts -/

/-- What follows a character of an inert text: a brace is followed, maybe after newlines, by another
character, and not by a brace right away. -/
def InertFollows (c : Char) (x : Text) : Prop :=
  c ≠ Span.placeholderStart ∧
    (c = '{' → ∃ k d, x = List.replicate k '\n' ++ [d] ∧ d ≠ '\n' ∧ (k = 0 → d ≠ '{'))

/-- What markers of inert texts say. -/
structure InertMarker (inner : Text) : Prop where
  simple : Simple inner
  free : Text.FreeOf Marker.closing inner
  noPlaceholder : Span.placeholderStart ∉ inner
  notAsked : ¬ Field.Asked inner

/-- The text begins no marker, and none of its markers asks for a field. -/
def Inert (t : Text) : Prop :=
  ∃ ts, joinTokens ts = t ∧ Guarded InertFollows ts ∧ ∀ inner, .marker inner ∈ ts → InertMarker inner

theorem exists_newlines (h : ∃ d ∈ t, d ≠ '\n') :
    ∃ k d u, t = List.replicate k '\n' ++ d :: u ∧ d ≠ '\n' := by
  induction t with
  | nil =>
    obtain ⟨d, hd, -⟩ := h
    cases hd
  | cons c t ih =>
    by_cases hc : c = '\n'
    · subst hc
      obtain ⟨d, hd, hne⟩ := h
      have hd' : d ∈ t := (List.mem_cons.1 hd).resolve_left hne
      obtain ⟨k, e, u, rfl, he⟩ := ih ⟨d, hd', hne⟩
      exact ⟨k + 1, e, u, rfl, he⟩
    · exact ⟨0, c, t, rfl, hc⟩

theorem guarded_of_calm (h : Text.Calm t) : Guarded InertFollows (charTokens t) := by
  induction t with
  | nil => trivial
  | cons c t ih =>
    obtain ⟨hc, hbrace, ht⟩ := h
    refine ⟨?_, ih ht⟩
    by_cases hb : c = '{'
    · obtain ⟨hhead, hne⟩ := hbrace hb
      obtain ⟨k, d, u, rfl, hd⟩ := exists_newlines hne
      refine ⟨_, ⟨hc, fun _ => ⟨k, d, rfl, hd, ?_⟩⟩, charTokens u, ?_⟩
      · rintro rfl rfl
        exact hhead rfl
      · rw [← Marker.charTokens_append, List.append_assoc, List.singleton_append]
        rfl
    · exact ⟨[], ⟨hc, fun h => absurd h hb⟩, List.nil_prefix⟩

/-- Guarded characters and closed markers are sealed. -/
theorem sealed_of_guarded (h : Guarded InertFollows ts)
    (hm : ∀ inner, .marker inner ∈ ts → Text.FreeOf Marker.closing inner) : Sealed ts := by
  induction ts with
  | nil => trivial
  | cons k ts ih =>
    have hrest : ∀ inner, .marker inner ∈ ts → Text.FreeOf Marker.closing inner :=
      fun inner hi => hm inner (List.mem_cons_of_mem k hi)
    cases k with
    | marker inner => exact ⟨hm inner List.mem_cons_self, ih h hrest⟩
    | char c =>
      obtain ⟨⟨x, hx, us, rfl⟩, h⟩ := h
      refine ⟨fun hc => ?_, ih h hrest⟩
      obtain ⟨k, d, rfl, -, hd⟩ := hx.2 hc
      cases k with
      | zero => exact ⟨d, hd rfl, rfl⟩
      | succ k => exact ⟨'\n', by decide, rfl⟩

theorem inert_nil : Inert [] :=
  ⟨[], rfl, trivial, nofun⟩

theorem Inert.append (ht : Inert t) (hu : Inert u) : Inert (t ++ u) := by
  obtain ⟨ts, rfl, hg, hm⟩ := ht
  obtain ⟨us, rfl, hg', hm'⟩ := hu
  refine ⟨ts ++ us, by simp, hg.append hg', fun inner hi => ?_⟩
  rcases List.mem_append.1 hi with hi | hi
  · exact hm inner hi
  · exact hm' inner hi

theorem inert_of_calm (h : Text.Calm t) : Inert t :=
  ⟨charTokens t, by simp, guarded_of_calm h,
    fun inner hi => absurd hi (marker_notMem_charTokens inner t)⟩

theorem inert_enclose {inner : Text} (h : InertMarker inner) : Inert (Marker.enclose inner) := by
  refine ⟨[.marker inner], by simp [Token.text], trivial, fun i hi => ?_⟩
  obtain rfl : i = inner := by simpa using hi
  exact h

theorem placeholderStart_notMem_of_inert (h : Inert t) : Span.placeholderStart ∉ t := by
  obtain ⟨ts, rfl, hg, hm⟩ := h
  exact placeholderStart_notMem_joinTokens hg (fun _ _ hx => hx.1) fun inner hi => (hm inner hi).noPlaceholder

/-- A newline at the end guards no brace. -/
theorem guarded_left_newline (h : Guarded InertFollows (ts ++ [.char '\n'])) :
    Guarded InertFollows ts := by
  induction ts with
  | nil => trivial
  | cons k ts ih =>
    cases k with
    | marker inner => exact ih h
    | char c =>
      obtain ⟨⟨x, hx, hp⟩, h⟩ := h
      refine ⟨?_, ih h⟩
      by_cases hc : c = '{'
      · refine ⟨x, hx, ?_⟩
        rcases List.prefix_concat_iff.1 hp with he | hp
        · obtain ⟨k, d, rfl, hd, -⟩ := hx.2 hc
          rw [Marker.charTokens_append] at he
          exact absurd (Token.char.inj (List.cons.inj (List.append_inj' he rfl).2).1) hd
        · exact hp
      · exact ⟨[], ⟨hx.1, fun h => absurd h hc⟩, List.nil_prefix⟩

/-- **An inert text stays inert without its last newline.** -/
theorem Inert.dropLast (h : Inert t) (hn : t.getLast? = some '\n') : Inert t.dropLast := by
  obtain ⟨ts, rfl, hg, hm⟩ := h
  rcases List.eq_nil_or_concat ts with rfl | ⟨us, k, rfl⟩
  · exact inert_nil
  · rw [List.concat_eq_append] at hg hm hn ⊢
    cases k with
    | marker inner =>
      have hlast : (joinTokens (us ++ [.marker inner])).getLast? = some '}' := by
        simp [Token.text, Marker.enclose, Marker.closing, List.getLast?_append]
      rw [hlast] at hn
      cases hn
    | char c =>
      have hj : joinTokens (us ++ [.char c]) = joinTokens us ++ [c] := by simp [Token.text]
      rw [hj, List.getLast?_concat] at hn
      obtain rfl := Option.some.inj hn
      rw [hj, List.dropLast_concat]
      exact ⟨us, rfl, guarded_left_newline hg, fun inner hi => hm inner (List.mem_append_left _ hi)⟩

/-! ## Texts without fields -/

/-- No part of the text is a marker that asks for a field. -/
def NoField (t : Text) : Prop :=
  ∀ a inner b, t = a ++ Marker.enclose inner ++ b → Text.FreeOf Marker.closing inner →
    ¬ Field.Asked inner

/-- No part is a marker that asks for a field if no token is. -/
theorem noField_of_tokens (hs : ∀ inner, .marker inner ∈ tokens t → Simple inner)
    (h : ∀ inner, .marker inner ∈ tokens t → ¬ Field.Asked inner) : NoField t := by
  intro a inner b he hf
  obtain ⟨ts, us, htok, -, -⟩ := Marker.tokens_of_occurrence hs hf he
  refine h inner ?_
  rw [htok]
  simp

/-- **No part of an inert text is a marker that asks for a field.** -/
theorem noField_of_inert (h : Inert t) : NoField t := by
  obtain ⟨ts, rfl, hg, hm⟩ := h
  have htok := Marker.tokens_joinTokens (sealed_of_guarded hg fun inner hi => (hm inner hi).free)
  refine noField_of_tokens ?_ ?_
  · intro inner hi
    rw [htok] at hi
    exact (hm inner hi).simple
  · intro inner hi
    rw [htok] at hi
    exact (hm inner hi).notAsked

theorem NoField.part {a b : Text} (h : NoField (a ++ t ++ b)) : NoField t := by
  rintro a' inner b' rfl hf
  exact h (a ++ a') inner (b' ++ b) (by simp) hf

/-- A token of a text that has no field asks for none. -/
theorem NoField.notAsked (h : NoField t) {inner : Text} (hi : .marker inner ∈ tokens t) :
    ¬ Field.Asked inner := by
  obtain ⟨ts, us, htok⟩ := List.append_of_mem hi
  refine h (joinTokens ts) inner (joinTokens us) ?_ (Marker.sealed_left htok).2
  rw [← Marker.joinTokens_tokens t, htok]
  simp [Token.text]

/-! ## The calm dialect -/

/-- What markers of the calm dialect say: the default of a field is calm. -/
structure CalmMarker (inner : Text) : Prop where
  simple : Simple inner
  free : Text.FreeOf Marker.closing inner
  noPlaceholder : Span.placeholderStart ∉ inner
  default : Field.Asked inner → ∀ u ∈ (FieldSpec.parse inner).default, Text.Calm u

theorem CalmMarker.inert {inner : Text} (h : CalmMarker inner) (hn : ¬ Field.Asked inner) :
    InertMarker inner where
  simple := h.simple
  free := h.free
  noPlaceholder := h.noPlaceholder
  notAsked := hn

/-- Templates in which a brace outside markers is followed by another character of its line. -/
def calm : Dialect where
  follows c x := c ≠ Span.placeholderStart ∧
    if c = '{' then ∃ d, x = [d] ∧ d ≠ '{' ∧ d ≠ '\n' ∧ d ≠ Span.placeholderStart else x = []
  admits := CalmMarker
  plain h := ⟨h.2, by rw [if_neg h.1]⟩
  oneLine := by
    rintro c x ⟨-, h⟩
    split at h
    · obtain ⟨d, rfl, -, hd, -⟩ := h
      simpa using hd.symm
    · rw [h]
      nofun
  noPlaceholder := by
    rintro c x ⟨hc, h⟩
    split at h
    · obtain ⟨d, rfl, -, -, hd⟩ := h
      simp [hc.symm, hd.symm]
    · rw [h]
      simpa using hc.symm
  simple h := h.simple
  admitsNoPlaceholder h := h.noPlaceholder

/-- In place of a marker the same inert text is written. -/
def sameInert : Filling where
  writes l r := l = r ∧ Inert l
  noPlaceholder := by
    rintro l _ ⟨rfl, h⟩
    exact ⟨placeholderStart_notMem_of_inert h, placeholderStart_notMem_of_inert h⟩
  nil := by
    rintro l _ ⟨rfl, -⟩
    exact Iff.rfl
  newline := by
    rintro l _ ⟨rfl, -⟩
    exact Iff.rfl
  dropLast := by
    rintro l _ ⟨rfl, h⟩ hn
    exact ⟨rfl, h.dropLast hn⟩

theorem exists_char_of_joinTokens {d : Char} (hd : d ≠ '{') (h : joinTokens ts = d :: t) :
    ∃ us, ts = .char d :: us := by
  cases ts with
  | nil => cases h
  | cons k ts =>
    cases k with
    | char c =>
      obtain ⟨rfl, -⟩ := List.cons.inj h
      exact ⟨ts, rfl⟩
    | marker inner =>
      obtain ⟨rfl, -⟩ := List.cons.inj h
      exact absurd rfl hd

/-- **Templates of the calm dialect are filled in with inert texts to inert texts.** -/
theorem inert_of_written {l r : Text} (h : Written calm sameInert l r) : l = r ∧ Inert l := by
  induction h with
  | nil => exact ⟨rfl, inert_nil⟩
  | @char c x l r hc _ ih =>
    obtain ⟨he, ts, hj, hg, hm⟩ := ih
    refine ⟨congrArg (c :: ·) he, .char c :: ts, by simp [Token.text, hj], ⟨?_, hg⟩, fun inner hi => ?_⟩
    · obtain ⟨hp, hx⟩ := hc
      split at hx
      · obtain ⟨d, rfl, hd, hn, -⟩ := hx
        obtain ⟨us, rfl⟩ := exists_char_of_joinTokens hd hj
        exact ⟨[d], ⟨hp, fun _ => ⟨0, d, rfl, hn, fun _ => hd⟩⟩, us, rfl⟩
      · next hb => exact ⟨[], ⟨hp, fun h => absurd h hb⟩, List.nil_prefix⟩
    · exact hm inner ((List.mem_cons.1 hi).resolve_left Token.noConfusion)
  | text hw _ ih =>
    obtain ⟨rfl, hi⟩ := hw
    obtain ⟨rfl, hi'⟩ := ih
    exact ⟨rfl, hi.append hi'⟩

/-- A section produces texts without fields. -/
def noFields : Finish calm sameInert where
  done l r := l = r ∧ NoField l
  oneLine := False
  whole h := ⟨(inert_of_written h).1, noField_of_inert (inert_of_written h).2⟩
  lines := by
    intro l r h
    obtain ⟨rfl, hi⟩ := inert_of_written h
    refine List.forall₂_same.2 fun line hline => ⟨rfl, ?_⟩
    obtain ⟨a, b, hab⟩ := Text.exists_append_of_mem_join ['\n'] hline
    have hn := noField_of_inert hi
    rw [← Text.join_splitOn '\n' l] at hn
    exact NoField.part (hab ▸ hn)
  same := by
    intro l r _ h
    obtain ⟨rfl, hi⟩ := inert_of_written h
    refine ⟨rfl, ?_⟩
    rintro a m b rfl
    exact ⟨rfl, (noField_of_inert hi).part⟩

/-! ## Trees of the calm dialect -/

theorem sealed_of_template (h : calm.Template t) : Sealed (tokens t) := by
  refine sealed_of_guarded (h.1.mono fun c x hx => ?_) fun inner hi => (h.admits hi).free
  obtain ⟨hp, hx⟩ := hx
  refine ⟨hp, fun hc => ?_⟩
  rw [if_pos hc] at hx
  obtain ⟨d, rfl, hd, hn, -⟩ := hx
  exact ⟨0, d, rfl, hn, fun _ => hd⟩

theorem template_append (ht : calm.Template t) (hu : calm.Template u) : calm.Template (t ++ u) := by
  have h := Marker.tokens_joinTokens_append (sealed_of_template ht) u
  rw [Marker.joinTokens_tokens] at h
  rw [Dialect.Template, h]
  exact Dialect.divisible_fits.append ht hu

theorem template_join {sep : Char} (hs : Text.Plain sep) {texts : List Text}
    (h : ∀ t ∈ texts, calm.Template t) : calm.Template (Text.join [sep] texts) := by
  have hplain : Text.AllPlain [sep] := by simpa [Text.AllPlain] using hs
  induction texts with
  | nil => exact Dialect.template_nil
  | cons t texts ih =>
    have ht := h t List.mem_cons_self
    have hrest := ih fun u hu => h u (List.mem_cons_of_mem t hu)
    cases texts with
    | nil => exact ht
    | cons u us =>
      rw [Text.join, List.append_assoc]
      · exact template_append ht (Dialect.template_plain_append hplain hrest)
      · simp

mutual

/-- The paragraphs of a whole tree have the property. -/
theorem of_whole_paragraphsAt {P Q : Text → Prop} (here : Path) : ∀ (level : Level) (n : Node),
    Whole P Q level n → ∀ x ∈ Node.paragraphsAt here level n, P x.2.text
  | .blocks, .paragraph p _, h, x, hx => by
    obtain rfl := List.mem_singleton.1 hx
    exact h.2
  | .blocks, .table _ rows _, h, x, hx => of_allWhole_paragraphsFrom here 0 .rows rows h.2 x hx
  | .rows, .row _ cells _, h, x, hx => of_allWhole_paragraphsFrom here 0 .cells cells h.2.2 x hx
  | .cells, .cell _ children _, h, x, hx => of_allWhole_paragraphsFrom here 0 .blocks children h x hx

theorem of_allWhole_paragraphsFrom {P Q : Text → Prop} (above : Path) (index : Nat) :
    ∀ (level : Level) (ns : List Node), AllWhole P Q level ns →
      ∀ x ∈ Node.paragraphsFrom above index level ns, P x.2.text
  | level, [], _, x, hx => by
    rw [Node.paragraphsFrom] at hx
    cases hx
  | level, n :: ns, h, x, hx => by
    rw [Node.paragraphsFrom] at hx
    rcases List.mem_append.1 hx with hx | hx
    · exact of_whole_paragraphsAt _ level n h.1 x hx
    · exact of_allWhole_paragraphsFrom above (index + 1) level ns h.2 x hx

end

theorem repeatedRows_subset (rows : List Node) : repeatedRows rows ⊆ rows := by
  induction rows using repeatedRows.induct with
  | case1 =>
    rw [repeatedRows]
    exact List.Subset.refl _
  | case2 r rs h ih =>
    rw [repeatedRows, h]
    exact List.subset_cons_of_subset r ih
  | case3 r rs opener h count =>
    rename_i ih
    rw [repeatedRows, h]
    refine List.append_subset.2 ⟨?_, ?_⟩
    · exact List.cons_subset_cons r (List.take_subset _ rs)
    · exact List.subset_cons_of_subset r (List.Subset.trans ih (List.drop_subset _ rs))

section Trees

variable {Q : Text → Prop}

mutual

/-- No table in the cells of a repeated row asks for a field, wherever the row stands. -/
def InnerFree : Level → Node → Prop
  | .blocks, .table _ rows _ =>
    (∀ row ∈ repeatedRows rows, ∀ p ∈ innerParagraphs row,
      ∀ inner, .marker inner ∈ tokens p.text → ¬ Field.Asked inner) ∧ AllInnerFree .rows rows
  | .rows, .row _ cells _ => AllInnerFree .cells cells
  | .cells, .cell _ children _ => AllInnerFree .blocks children
  | _, _ => True

/-- No table in the cells of a repeated row among or beneath the nodes asks for a field. -/
def AllInnerFree (level : Level) : List Node → Prop
  | [] => True
  | n :: ns => InnerFree level n ∧ AllInnerFree level ns

end

theorem noFields_innerParagraphs {row : Node} (hw : Whole calm.Template Q .rows row)
    (h : ∀ p ∈ innerParagraphs row, ∀ inner, .marker inner ∈ tokens p.text → ¬ Field.Asked inner) :
    ∀ p ∈ innerParagraphs row, noFields.done p.text p.text := by
  intro p hp
  refine ⟨rfl, noField_of_tokens ?_ (h p hp)⟩
  suffices ht : calm.Template p.text from fun inner hi => calm.simple (ht.admits hi)
  obtain ⟨cell, hc, hp⟩ := List.mem_flatMap.1 hp
  cases row with
  | row attributes cells rendered =>
    have hcell := Node.allWhole_iff.1 hw.2.2 cell hc
    cases cell with
    | cell attributes children rendered =>
      obtain ⟨x, hx, rfl⟩ := List.mem_map.1 hp
      exact of_allWhole_paragraphsFrom [] 0 .blocks _
        (hcell.subset (List.filter_subset_self children)) x hx
    | _ => cases hcell
  | _ => cases hw

mutual

/-- **A tree of the calm dialect is a template**, if no table in a repeated row asks for a field. -/
theorem raw_of_whole : ∀ (level : Level) (n : Node), Whole calm.Template Q level n →
    InnerFree level n → Raw calm noFields level n
  | .blocks, .paragraph _ _, h, _ => h
  | .blocks, .table _ rows _, h, hi => by
    refine ⟨h.1, allRaw_of_allWhole .rows rows h.2 hi.2, fun row hr => ?_⟩
    exact noFields_innerParagraphs (Node.allWhole_iff.1 h.2 row (repeatedRows_subset rows hr))
      (hi.1 row hr)
  | .blocks, .pageBreak _, _, _ => trivial
  | .blocks, .verbatim _, _, _ => trivial
  | .rows, .row attributes cells rendered, h, hi => by
    refine ⟨h.1, ?_, allRaw_of_allWhole .cells cells h.2.2 hi⟩
    exact h.2.2.rowText (fun _ => template_join (by decide)) fun _ => template_join (by decide)
  | .cells, .cell attributes children rendered, h, hi =>
    ⟨h.cellText fun _ => template_join (by decide), False.elim, allRaw_of_allWhole .blocks children h hi⟩

theorem allRaw_of_allWhole : ∀ (level : Level) (ns : List Node), AllWhole calm.Template Q level ns →
    AllInnerFree level ns → AllRaw calm noFields level ns
  | _, [], _, _ => trivial
  | level, n :: ns, h, hi =>
    ⟨raw_of_whole level n h.1 hi.1, allRaw_of_allWhole level ns h.2 hi.2⟩

end

end Trees

end Section
end MailMerge
