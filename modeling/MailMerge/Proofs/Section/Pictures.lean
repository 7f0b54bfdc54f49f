import MailMerge.Field.Substitution
import MailMerge.Proofs.Conditional.Nodes
import MailMerge.Proofs.Merge.Results
import MailMerge.Proofs.Section.Left
import MailMerge.Proofs.Section.WholeLines
import MailMerge.Section.Expansion

/-!
# Pictures

What a step gives and the images that it reports have a property if they have it whenever the step has a
result. The images of steps in sequence follow each other. Most steps report no images: evaluating conditions,
resolving conditionals and finding the records of a section.

An image marker stays in its text when fields are filled in, and asks for an image of its own. So the
images that a text asks for are, in some order, the image markers of the text that comes out, if the
template is of a calm dialect and the data is calm.

**`Reports.bind`**: what is known of each of two steps is known of the sequence of both.

**`reports_render`**: a rendered text asks for the images whose markers are in it.

**`pictures_unlines`**: the image markers of lines are those of each line, if each stands in one line.
-/

namespace MailMerge.Merging

variable {ι κ α β γ : Type} {P : α → List ι → Prop} {Q : β → List ι → Prop} {x : Merging ι α}
  {f : α → Merging ι β}

/-- Whenever the step has a result, the property holds of it and of the images that are reported. -/
def Reports (P : α → List ι → Prop) (x : Merging ι α) : Prop :=
  ∀ a log, x = Except.ok (a, log) → P a log.images

/-- The step reports no images. -/
def Silent (x : Merging ι α) : Prop :=
  x.Reports fun _ is => is = []

/-! ## Single steps -/

theorem reports_report {a : α} {is : List ι} (h : P a is) (ws : List Warning) :
    Reports P (report ws is a) := by
  rintro b log he
  obtain ⟨rfl, rfl⟩ := Prod.mk.inj (Except.ok.inj he)
  exact h

theorem reports_pure {a : α} (h : P a []) : Reports P (pure a) :=
  reports_report h []

theorem reports_fail (P : α → List ι → Prop) (e : MergeError) : Reports P (fail e) := by
  rintro a log he
  cases he

theorem Reports.mono {P' : α → List ι → Prop} (h : Reports P x) (hp : ∀ a is, P a is → P' a is) :
    Reports P' x :=
  fun a log he => hp a _ (h a log he)

/-- What is known of the results of a step and what is known of its images. -/
theorem Reports.gives (h : Reports P x) : Reports (fun a is => x.Gives a ∧ P a is) x :=
  fun a log he => ⟨⟨log, he⟩, h a log he⟩

theorem silent_pure (a : α) : Silent (pure a : Merging ι α) :=
  reports_pure rfl

theorem silent_fail (e : MergeError) : Silent (fail e : Merging ι α) :=
  reports_fail _ e

theorem silent_report (ws : List Warning) (a : α) : Silent (report ws [] a : Merging ι α) :=
  reports_report (P := fun _ is => is = []) rfl ws

theorem silent_ofFault (y : Except Fault α) : Silent (ofFault y : Merging ι α) := by
  cases y with
  | ok a => exact silent_pure a
  | error e => exact silent_fail _

/-! ## Steps in sequence -/

/-- **Steps in sequence report one after the other.** -/
theorem Reports.bind (h : Reports P x)
    (hf : ∀ a is, P a is → Reports (fun b js => Q b (is ++ js)) (f a)) : Reports Q (x >>= f) := by
  intro b log he
  obtain ⟨a, first, second, hx, hfa, rfl⟩ := bind_eq_ok_iff.1 he
  exact hf a _ (h a first hx) b second hfa

theorem Silent.bind (h : x.Silent) (hf : ∀ a, x.Gives a → Reports Q (f a)) : Reports Q (x >>= f) := by
  refine h.gives.bind ?_
  rintro a _ ⟨hg, rfl⟩
  exact hf a hg

theorem Reports.map {g : α → β} (h : Reports P x) (hg : ∀ a is, P a is → Q (g a) is) :
    Reports Q (g <$> x) := by
  rw [← bind_pure_comp]
  refine h.bind fun a is ha => reports_pure ?_
  rw [List.append_nil]
  exact hg a is ha

theorem Reports.mapImages {Q : α → List κ → Prop} {g : α → List ι → List κ} (h : Reports P x)
    (hg : ∀ a is, P a is → Q a (g a is)) : Reports Q (x.mapImages g) := by
  intro a log he
  cases x with
  | error e => cases he
  | ok r =>
    obtain ⟨rfl, rfl⟩ := Prod.mk.inj (Except.ok.inj he)
    exact hg _ _ (h r.1 r.2 rfl)

/-- A step for each item of a list: the items of the results, each with its images. -/
theorem reports_mapM {P : γ → α → List ι → Prop} {g : γ → Merging ι α} {cs : List γ}
    (h : ∀ c ∈ cs, Reports (P c) (g c)) :
    Reports (fun as is => ∃ rs : List (α × List ι), List.Forall₂ (fun c r => P c r.1 r.2) cs rs ∧
      as = rs.map Prod.fst ∧ is = rs.flatMap Prod.snd) (cs.mapM g) := by
  induction cs with
  | nil =>
    rw [List.mapM_nil]
    exact reports_pure ⟨[], .nil, rfl, rfl⟩
  | cons c cs ih =>
    rw [List.mapM_cons]
    refine (h c List.mem_cons_self).bind fun a is ha => ?_
    refine (ih fun d hd => h d (List.mem_cons_of_mem c hd)).map ?_
    rintro _ _ ⟨rs, hrs, rfl, rfl⟩
    exact ⟨(a, is) :: rs, .cons ha hrs, rfl, rfl⟩

/-! ## Steps without images -/

theorem silent_runEvents (fields : Condition.Fields) (es : List Conditional.Event) :
    Silent (Conditional.runEvents fields es : Merging ι Unit) := by
  induction es with
  | nil => exact silent_pure ()
  | cons e es ih =>
    cases e with
    | asked conditions =>
      exact (silent_ofFault _).bind fun ws _ => (silent_report ws ()).bind fun _ _ => ih
    | unopened => exact (silent_report [_] ()).bind fun _ _ => ih
    | unclosed condition => exact silent_fail _

theorem silent_resolveNodes (fields : Condition.Fields) (ns : List Node) :
    Silent (Conditional.resolveNodes fields ns : Merging ι (List Node)) := by
  rw [Conditional.resolveNodes_eq_run, Conditional.Outcome.run]
  exact (silent_runEvents fields _).bind fun _ _ => silent_pure _

theorem silent_resolve (settings : Settings) (fields : Condition.Fields) (t : Text) :
    Silent (Conditional.resolve settings fields t : Merging ι Text) := by
  refine (silent_ofFault _).bind fun r _ => ?_
  split
  · exact silent_report _ _
  · exact silent_fail _

theorem silent_resolveParagraph (settings : Settings) (fields : Condition.Fields) (p : Paragraph) :
    Silent (Conditional.resolveParagraph settings fields p : Merging ι Paragraph) :=
  (silent_resolve settings fields p.text).bind fun _ _ => silent_pure _

theorem silent_writeValue (settings : Settings) (path : Text) (format : Option Text) (v : Value) :
    Silent (Field.writeValue settings path format v : Merging ι Text) := by
  unfold Field.writeValue
  split
  · exact silent_pure _
  · exact silent_fail _
  · exact (silent_report [_] ()).bind fun _ _ => silent_ofFault _

theorem silent_renderField (settings : Settings) (c : Context) (spec : FieldSpec) :
    Silent (Field.render settings c spec : Merging ι Text) := by
  refine (silent_ofFault _).bind fun v _ => ?_
  split
  · split
    · exact silent_pure _
    · exact silent_fail _
  · exact silent_writeValue settings spec.path _ v

theorem silent_records (settings : Settings) (opener : Marker) (c : Context) (nested : Bool) :
    Silent (Section.records settings opener c nested : Merging ι (List Value)) := by
  unfold Section.records Section.bind
  refine Silent.bind ((silent_ofFault _).bind fun vs _ => ?_) fun items _ => ?_
  · split
    · exact silent_pure _
    · exact silent_fail _
  · split
    · exact (silent_report [_] ()).bind fun _ _ => silent_pure _
    · exact silent_pure _

theorem silent_rowSection (opener : Marker) (texts : List Text) :
    Silent (Section.rowSection opener texts : Merging ι (Nat × Option Marker)) := by
  unfold Section.rowSection
  split
  · exact silent_pure _
  · exact (silent_report [_] ()).bind fun _ _ => silent_pure _

end MailMerge.Merging

namespace MailMerge

open Marker (Token tokens joinTokens charTokens Sealed Simple classify)

/-- An image marker with the field that it names. -/
abbrev Picture := Text × Text

/-- The image marker that asks for the image. -/
def ImageRequest.picture (r : ImageRequest) : Picture :=
  (r.marker, r.field)

namespace Section

open Merging (Reports Silent reports_pure reports_mapM)

variable {settings : Settings} {c : Context} {t u : Text}

/-! ## Image markers -/

/-- The image markers of a text, in order. -/
def pictures (t : Text) : List Picture :=
  (Marker.scanFor (· == .image) t).map fun m => (m.text, m.argument)

/-- The image marker with the given text between its braces. -/
def picture? (inner : Text) : Option Picture :=
  if (classify inner).kind = .image then some (Marker.enclose inner, (classify inner).argument) else none

theorem pictures_locateTokens (offset : Nat) (ts : List Token) :
    (((Marker.locateTokens offset ts).filter fun m => m.kind == .image).map fun m => (m.text, m.argument)) =
      (ts.filterMap Token.inner?).filterMap picture? := by
  induction ts generalizing offset with
  | nil => rfl
  | cons k ts ih =>
    cases k with
    | char ch => exact ih (offset + 1)
    | marker inner =>
      have ih := ih (offset + (Marker.enclose inner).length)
      by_cases hk : (classify inner).kind = .image
      · have hp : picture? inner = some (Marker.enclose inner, (classify inner).argument) := if_pos hk
        simp [Marker.locateTokens, Token.inner?, hp, ih, Marker.ofInner, hk]
      · have hp : picture? inner = none := if_neg hk
        simp [Marker.locateTokens, Token.inner?, hp, ih, Marker.ofInner, hk]

theorem pictures_eq (t : Text) : pictures t = (inners t).filterMap picture? := by
  rw [pictures, Marker.scanFor, Marker.scan_eq_locateTokens]
  exact pictures_locateTokens 0 (tokens t)

theorem pictures_nil : pictures [] = [] := by
  rw [pictures_eq, inners_nil]
  rfl

/-! ## Lines -/

/-- What is left of a marker, with its closing braces, begins no other one. -/
theorem sealed_rest {y : Text} (h : ∀ a b, y ≠ a ++ Marker.opening ++ b) :
    Sealed (charTokens (y ++ Marker.closing)) := by
  induction y with
  | nil => exact ⟨fun hc => absurd hc (by decide), fun hc => absurd hc (by decide), trivial⟩
  | cons ch y ih =>
    have hrest : ∀ a b, y ≠ a ++ Marker.opening ++ b := by
      rintro a b rfl
      exact h (ch :: a) b rfl
    refine ⟨?_, ih hrest⟩
    rintro rfl
    cases y with
    | nil => exact ⟨'}', by decide, rfl⟩
    | cons d y =>
      refine ⟨d, ?_, rfl⟩
      rintro rfl
      exact h [] y rfl

/-- A newline stands between the markers of what is in front of it and behind it, but for a marker that it
stands in. -/
theorem inners_newline {a b : Text} (h : ∀ i ∈ inners (a ++ '\n' :: b), Simple i) :
    ∃ mid, inners (a ++ '\n' :: b) = inners a ++ mid ++ inners b ∧ ∀ i ∈ mid, '\n' ∈ i := by
  rcases tokens_newline_cases a b with htokens | ⟨d, x, y, after, -, rfl, ha, htokens⟩
  · refine ⟨[], ?_, by simp⟩
    rw [inners, htokens, newlineTokens, List.filterMap_append, List.append_nil]
    rfl
  · -- The marker that the newline stands in is torn, and what is left of it begins no other one.
    refine ⟨[x ++ '\n' :: y], ?_, by simp⟩
    have hinners : inners (a ++ '\n' :: (y ++ Marker.closing ++ after)) =
        inners d ++ (x ++ '\n' :: y) :: inners after := by
      rw [inners, htokens, List.filterMap_append]
      rfl
    have hy : ∀ a b, y ≠ a ++ Marker.opening ++ b := by
      rintro a b rfl
      have hs := h (x ++ '\n' :: (a ++ Marker.opening ++ b)) (by rw [hinners]; simp)
      refine Text.contains_eq_false_iff.1 hs ('{' :: (x ++ '\n' :: a)) b ?_
      simp
    have hb : inners (y ++ Marker.closing ++ after) = inners after := by
      have := Marker.tokens_joinTokens_append (sealed_rest hy) after
      rw [Marker.joinTokens_charTokens] at this
      rw [inners, this, List.filterMap_append, filterMap_charTokens]
      rfl
    have hd : inners a = inners d := by
      rw [inners, ha, List.filterMap_append, filterMap_charTokens, List.append_nil]
      rfl
    rw [hinners, hb, hd]
    simp

/-- Opening braces do not stand in markers of the text, and image markers stand in one line. -/
def Drawn (t : Text) : Prop :=
  ∀ i ∈ inners t, Simple i ∧ ((classify i).kind = .image → '\n' ∉ i)

theorem pictures_newline {a b : Text} (h : Drawn (a ++ '\n' :: b)) :
    pictures (a ++ '\n' :: b) = pictures a ++ pictures b ∧ Drawn a ∧ Drawn b := by
  obtain ⟨mid, hmid, hnew⟩ := inners_newline fun i hi => (h i hi).1
  have hnone : mid.filterMap picture? = [] := by
    rw [List.filterMap_eq_nil_iff]
    intro i hi
    refine if_neg fun hk => (h i ?_).2 hk (hnew i hi)
    rw [hmid]
    exact List.mem_append_left _ (List.mem_append_right _ hi)
  refine ⟨?_, fun i hi => h i (hmid ▸ List.mem_append_left _ (List.mem_append_left _ hi)),
    fun i hi => h i (hmid ▸ List.mem_append_right _ hi)⟩
  rw [pictures_eq, hmid, List.filterMap_append, List.filterMap_append, hnone, List.append_nil, ← pictures_eq,
    ← pictures_eq]

/-- **The image markers of lines** are those of each line. -/
theorem pictures_unlines {ls : List Text} (h : Drawn (Text.unlines ls)) :
    pictures (Text.unlines ls) = ls.flatMap pictures ∧ ∀ l ∈ ls, Drawn l := by
  induction ls with
  | nil => exact ⟨pictures_nil, by simp⟩
  | cons l ls ih =>
    cases ls with
    | nil =>
      rw [show Text.unlines [l] = l from rfl] at h ⊢
      exact ⟨by simp, by simpa using h⟩
    | cons l' ls =>
      have hlines : Text.unlines (l :: l' :: ls) = l ++ '\n' :: Text.unlines (l' :: ls) :=
        @Text.unlines_append [l] (l' :: ls) (by simp) (by simp)
      rw [hlines] at h ⊢
      obtain ⟨he, hl, hrest⟩ := pictures_newline h
      obtain ⟨ih, hls⟩ := ih hrest
      rw [he, ih]
      exact ⟨rfl, List.forall_mem_cons.2 ⟨hl, hls⟩⟩

theorem eq_enclose_of_picture? {inner : Text} {k : Picture} (h : picture? inner = some k) :
    k.1 = Marker.enclose inner := by
  rw [picture?] at h
  split at h
  · rw [← Option.some.inj h]
  · cases h

theorem exists_of_mem_pictures {k : Picture} (h : k ∈ pictures t) :
    ∃ inner, Text.FreeOf Marker.closing inner ∧ picture? inner = some k ∧ Text.contains k.1 t := by
  rw [pictures_eq] at h
  obtain ⟨inner, hi, hk⟩ := List.mem_filterMap.1 h
  obtain ⟨x, hx, hxi⟩ := List.mem_filterMap.1 hi
  cases x with
  | char ch => cases hxi
  | marker i =>
    cases hxi
    obtain ⟨ts, us, htokens⟩ := List.append_of_mem hx
    refine ⟨inner, (Marker.sealed_left htokens).2, hk, Text.contains_iff.2 ⟨joinTokens ts, joinTokens us, ?_⟩⟩
    rw [eq_enclose_of_picture? hk, ← Marker.joinTokens_tokens t, htokens]
    simp [Token.text]

/-- A text that holds the text of an image marker has it among its image markers. -/
theorem mem_pictures_of_contains {k : Picture} (h : Drawn t) (hu : k ∈ pictures u)
    (hc : Text.contains k.1 t) : k ∈ pictures t := by
  obtain ⟨inner, hf, hk, -⟩ := exists_of_mem_pictures hu
  obtain ⟨a, b, he⟩ := Text.contains_iff.1 hc
  rw [eq_enclose_of_picture? hk] at he
  obtain ⟨ts, us, htokens, -, -⟩ := Marker.tokens_of_occurrence
    (fun i hi => (h i (List.mem_filterMap.2 ⟨_, hi, rfl⟩)).1) hf he
  rw [pictures_eq]
  exact List.mem_filterMap.2 ⟨inner, List.mem_filterMap.2 ⟨.marker inner, by rw [htokens]; simp, rfl⟩, hk⟩

/-! ## Templates with image markers -/

/-- Templates of the calm dialect in which an image marker stands in one line. -/
def pictured : Dialect :=
  { calm with
    admits := fun inner => CalmMarker inner ∧ ((classify inner).kind = .image → '\n' ∉ inner)
    simple := fun h => h.1.simple
    admitsNoPlaceholder := fun h => h.1.noPlaceholder }

theorem calm_of_pictured (h : pictured.Template t) : calm.Template t :=
  ⟨h.1, fun k hk inner hi => (h.2 k hk inner hi).1⟩

theorem drawn_of_pictured (h : pictured.Template t) : Drawn t := by
  intro i hi
  obtain ⟨k, hk, hki⟩ := List.mem_filterMap.1 hi
  cases k with
  | char ch => cases hki
  | marker inner =>
    cases hki
    have := h.2 _ hk _ rfl
    exact ⟨this.1.simple, this.2⟩

/-! ## Rendered texts -/

/-- The images are asked for by the image markers of the text. -/
def Shows (u : Text) (rs : List ImageRequest) : Prop :=
  Drawn u ∧ (rs.map ImageRequest.picture).Perm (pictures u)

/-- Texts ask for the images of each of them. -/
theorem perm_flatMap_pictures {ps : List (Text × List ImageRequest)} (h : ∀ p ∈ ps, Shows p.1 p.2) :
    ((ps.flatMap Prod.snd).map ImageRequest.picture).Perm ((ps.map Prod.fst).flatMap pictures) := by
  induction ps with
  | nil => exact .nil
  | cons p ps ih =>
    rw [List.flatMap_cons, List.map_append, List.map_cons, List.flatMap_cons]
    exact (h p List.mem_cons_self).2.append (ih fun q hq => h q (List.mem_cons_of_mem p hq))

theorem shows_flatten {ps : List (Text × List ImageRequest)} (h : ∀ p ∈ ps, Shows p.1 p.2)
    (hi : inners (ps.map Prod.fst).flatten = (ps.map Prod.fst).flatMap inners) :
    Shows (ps.map Prod.fst).flatten (ps.flatMap Prod.snd) := by
  constructor
  · intro i hm
    rw [hi] at hm
    obtain ⟨y, hy, hm⟩ := List.mem_flatMap.1 hm
    obtain ⟨p, hp, rfl⟩ := List.mem_map.1 hy
    exact (h p hp).1 i hm
  · have heach : pictures (ps.map Prod.fst).flatten = (ps.map Prod.fst).flatMap pictures := by
      rw [pictures_eq, hi, List.filterMap_flatMap]
      exact List.flatMap_congr fun t _ => (pictures_eq t).symm
    rw [heach]
    exact perm_flatMap_pictures h

theorem Shows.perm {rs rs' : List ImageRequest} (h : Shows u rs) (hp : rs'.Perm rs) : Shows u rs' :=
  ⟨h.1, (hp.map _).trans h.2⟩

theorem shows_of_calm (h : Text.Calm t) : Shows t [] := by
  refine ⟨fun i hi => ?_, ?_⟩
  · rw [inners_of_calm h] at hi
    cases hi
  · rw [pictures_eq, inners_of_calm h]
    exact .nil

theorem ne_placeholderStart (h : Span.placeholderStart ∉ t) {ch : Char} (hk : .char ch ∈ tokens t) :
    ch ≠ Span.placeholderStart := by
  rintro rfl
  exact h (subset_of_mem_tokens hk List.mem_cons_self)

theorem shows_singleton (ch : Char) : Shows [ch] [] := by
  refine ⟨fun i hi => ?_, ?_⟩
  · rw [inners_singleton] at hi
    cases hi
  · rw [pictures_eq, inners_singleton]
    exact .nil

/-- What is put for symbols asks for images: first those of the fields, then those of the sections. -/
theorem reports_renderSymbols {nested : Bool} {xs : List Symbol}
    {Q : Symbol → Text → List ImageRequest → Prop}
    (h : ∀ x ∈ xs, (fillSymbol settings c x).Reports fun f is =>
      (putFilled settings c nested f).Reports fun y js => Q x y (is ++ js)) :
    (renderSymbols settings c nested xs).Reports fun u is => ∃ ps : List (Text × List ImageRequest),
      List.Forall₂ (fun x p => Q x p.1 p.2) xs ps ∧ u = (ps.map Prod.fst).flatten ∧
        is.Perm (ps.flatMap Prod.snd) := by
  have hparts : (xs.mapM (fillSymbol settings c)).Reports fun fs is =>
      (fs.mapM (putFilled settings c nested)).Reports fun ys js =>
        ∃ ps : List (Text × List ImageRequest), List.Forall₂ (fun x p => Q x p.1 p.2) xs ps ∧
          ys = ps.map Prod.fst ∧ (is ++ js).Perm (ps.flatMap Prod.snd) := by
    induction xs with
    | nil =>
      rw [List.mapM_nil]
      refine reports_pure ?_
      rw [List.mapM_nil]
      exact reports_pure ⟨[], .nil, rfl, .nil⟩
    | cons x xs ih =>
      rw [List.mapM_cons]
      refine (h x List.mem_cons_self).bind fun f is hf => ?_
      refine (ih fun y hy => h y (List.mem_cons_of_mem x hy)).map fun fs is' hfs => ?_
      rw [List.mapM_cons]
      refine hf.bind fun y js hy => hfs.map ?_
      rintro _ js' ⟨ps, hps, rfl, hperm⟩
      refine ⟨(y, is ++ js) :: ps, .cons hy hps, rfl, ?_⟩
      rw [List.flatMap_cons]
      have hswap : (is ++ is' ++ (js ++ js')).Perm (is ++ js ++ (is' ++ js')) := by
        simp only [List.append_assoc]
        exact (List.perm_append_comm_assoc is' js js').append_left is
      exact hswap.trans (hperm.append_left _)
  unfold renderSymbols
  refine hparts.bind fun fs is hfs => hfs.map ?_
  rintro _ js ⟨ps, hps, rfl, hperm⟩
  exact ⟨ps, hps, rfl, hperm⟩

theorem shows_enclose {inner : Text} (h : pictured.admits inner) {rs : List ImageRequest}
    (hr : rs.map ImageRequest.picture = (picture? inner).toList) : Shows (Marker.enclose inner) rs := by
  have hinners := inners_enclose h.1.free
  constructor
  · intro i hi
    rw [hinners] at hi
    obtain rfl := List.mem_singleton.1 hi
    exact ⟨h.1.simple, h.2⟩
  · rw [pictures_eq, hinners, hr]
    cases hp : picture? inner <;> simp [hp]

section Calm

variable (hsymbol : Text.Unopened settings.currencySymbol)
include hsymbol

/-- A marker asks for an image if it is an image marker, and stays then. -/
theorem reports_replace (hc : c.Calm) {inner : Text} (hi : pictured.admits inner) :
    (Field.replace settings c true inner).Reports Shows := by
  by_cases hk : (classify inner).kind = .image
  · have hp : picture? inner = some (Marker.enclose inner, (classify inner).argument) := if_pos hk
    simp only [Field.replace, hk, if_true, Field.imageRequest]
    refine (Merging.silent_ofFault _).bind fun v _ => ?_
    refine Merging.reports_report (shows_enclose hi ?_) []
    rw [hp]
    rfl
  · have hp : picture? inner = none := if_neg hk
    have hsilent : (Field.replace settings c true inner).Silent := by
      unfold Field.replace
      dsimp only
      split
      · next h => exact absurd h hk
      · split
        · exact Merging.silent_pure _
        · exact Merging.silent_renderField settings c _
      · exact Merging.silent_pure _
    refine hsilent.gives.mono ?_
    rintro v _ ⟨hv, rfl⟩
    rcases replace_eq_or_calm hsymbol hc hi.1 hv with ⟨rfl, -⟩ | hcalm
    · refine shows_enclose hi ?_
      rw [hp]
      rfl
    · exact shows_of_calm hcalm

theorem reports_fillToken (hc : c.Calm) (ht : pictured.Template t) {k : Token} (hk : k ∈ tokens t) :
    (fillSymbol settings c (.token k)).Reports fun f is =>
      ∃ y, f = .text y ∧ Symbol.Puts (.token k) y ∧ Shows y is := by
  cases k with
  | char ch => exact reports_pure ⟨[ch], rfl, rfl, shows_singleton ch⟩
  | marker inner =>
    have hadmits := ht.admits hk
    refine (reports_replace hsymbol hc hadmits).gives.map ?_
    rintro v rs ⟨hv, hshows⟩
    exact ⟨v, rfl, puts_marker hsymbol hc hadmits.1 hv, hshows⟩

/-- A section asks for images once for each record. -/
theorem reports_renderSpan (hc : c.Calm) {nested : Bool} {s : Span} (hbody : pictured.Template s.body)
    (ih : ∀ {c : Context}, c.Calm → (render settings c true s.body).Reports Shows) :
    (renderSpan settings c nested s).Reports Shows := by
  rw [renderSpan_eq]
  refine (Merging.silent_records settings s.opener c nested).bind fun records hrecords => ?_
  have hcalm := Value.allCalm_iff.1 ((agree_calmRecords hc s.opener nested).of_gives hrecords).2
  have htexts := reports_mapM (P := fun _ y rs => Inert y ∧ Shows y rs)
    (g := fun r => render settings (c.forRow r.1 r.2) true s.body)
    fun r (hr : r ∈ records.zipIdx) => by
      have hc' := hc.forRow (hcalm _ (List.fst_mem_of_mem_zipIdx hr)) r.2
      refine (ih hc').gives.mono ?_
      rintro y rs ⟨hy, hshows⟩
      exact ⟨inert_of_render hsymbol hc' (calm_of_pictured hbody) hy, hshows⟩
  refine htexts.bind ?_
  rintro _ _ ⟨ps, hps, rfl, rfl⟩
  have hshows : ∀ p ∈ ps, Inert p.1 ∧ Shows p.1 p.2 := fun p hp => by
    obtain ⟨r, -, hr⟩ := Merging.exists_of_forall₂ hps.flip hp
    exact hr
  obtain ⟨hinert, hflatten⟩ := inert_flatten fun y (hy : y ∈ ps.map Prod.fst) => by
    obtain ⟨p, hp, rfl⟩ := List.mem_map.1 hy
    exact (hshows p hp).1
  obtain ⟨-, htrimmed⟩ := inners_trimmed hinert s
  obtain ⟨hdrawn, hperm⟩ := shows_flatten (fun p hp => (hshows p hp).2) hflatten
  refine reports_pure ⟨?_, ?_⟩
  · rwa [Drawn, htrimmed]
  · rwa [List.append_nil, pictures_eq, htrimmed, ← pictures_eq]

/-- **A rendered text asks for the images whose markers are in it.** -/
theorem reports_render (hc : c.Calm) {nested : Bool} (ht : pictured.Template t) :
    (render settings c nested t).Reports Shows := by
  induction hl : t.length using Nat.strongRecOn generalizing t c nested with
  | ind n ih =>
    have hcalm := calm_of_pictured ht
    have hno := Dialect.placeholderStart_notMem_of_template hcalm
    obtain ⟨-, -, hsymbols, -⟩ :=
      render_eq_symbols settings c nested hno (noPlaceholderIn_of_calm hsymbol hc hcalm)
    have hsub := remaining_sublist c.resolve t
    have hfit : calm.FitsAside ((remaining c.resolve t).flatMap Symbol.tokensAside) := by
      rw [← keep_setAside]
      exact Conditional.divisible_keep Dialect.divisible_fitsAside (Dialect.fitsAside_setAside hcalm)
    have hplace : ∀ ch, .token (.char ch) ∈ remaining c.resolve t → ch ≠ Span.placeholderStart :=
      fun ch hch => ne_placeholderStart hno (mem_tokens_of_mem_symbols (hsub.subset hch))
    have hputs : ∀ x ∈ remaining c.resolve t, (fillSymbol settings c x).Reports fun f is =>
        (putFilled settings c nested f).Reports fun y js => x.Puts y ∧ Shows y (is ++ js) := by
      intro x hx
      cases x with
      | token k =>
        refine (reports_fillToken hsymbol hc ht (mem_tokens_of_mem_symbols (hsub.subset hx))).mono ?_
        rintro _ is ⟨y, rfl, hy, hshows⟩
        exact reports_pure ⟨hy, by rwa [List.append_nil]⟩
      | span s index =>
        have hmem := List.mem_of_getElem? (getElem?_of_span_mem (hsub.subset hx))
        have hbody := Span.template_body ht (Span.isBetween_of_mem_find hmem)
        have hspan : (renderSpan settings c nested s).Reports Shows :=
          reports_renderSpan hsymbol hc hbody fun hc' =>
            ih _ (hl ▸ Span.length_body_of_mem_find hmem) hc' hbody rfl
        refine reports_pure (hspan.gives.mono ?_)
        rintro y rs ⟨hy, hshows⟩
        exact ⟨gives_renderSpan hsymbol hc (calm_of_pictured hbody) (fun hc' hg ss hn hs =>
          leaves_of_render hsymbol hc' (calm_of_pictured hbody) hn hs hg) hy, by simpa using hshows⟩
    intro u log hr
    obtain ⟨ws, log', hr', rfl⟩ := hsymbols u log hr
    obtain ⟨ps, hps, rfl, hperm⟩ :=
      reports_renderSymbols (Q := fun x y rs => x.Puts y ∧ Shows y rs) hputs u log' hr'
    have hys : List.Forall₂ Symbol.Puts (remaining c.resolve t) (ps.map Prod.fst) := by
      rw [List.forall₂_map_right_iff]
      exact hps.imp fun x p h => h.1
    have hshows : ∀ p ∈ ps, Shows p.1 p.2 := fun p hp => by
      obtain ⟨x, -, hx⟩ := Merging.exists_of_forall₂ hps.flip hp
      exact hx.2
    exact (shows_flatten hshows (inners_flatten hfit hplace hys)).perm hperm

/-- **A text with its fields filled in asks for the images whose markers are in it.** -/
theorem reports_substitute (hc : c.Calm) (ht : pictured.Template t) :
    (Field.substitute settings c true t).Reports Shows := by
  have hcalm := calm_of_pictured ht
  have haside : ((tokens t).map Symbol.token).flatMap Symbol.tokensAside = tokens t := by
    rw [List.flatMap_map]
    exact List.flatMap_singleton' _
  have hfit : calm.FitsAside (((tokens t).map Symbol.token).flatMap Symbol.tokensAside) := by
    rw [haside]
    exact ⟨hcalm.1.mono fun ch x hx => .inl hx, hcalm.2⟩
  have hplace : ∀ ch, .token (.char ch) ∈ (tokens t).map Symbol.token → ch ≠ Span.placeholderStart := by
    intro ch hch
    obtain ⟨k, hk, he⟩ := List.mem_map.1 hch
    cases he
    exact ne_placeholderStart (Dialect.placeholderStart_notMem_of_template hcalm) hk
  have hfilled := reports_mapM (g := fillSymbol settings c)
    (P := fun x f is => x.Puts f.aside ∧ Shows f.aside is)
    fun x (hx : x ∈ (tokens t).map Symbol.token) => by
      obtain ⟨k, hk, rfl⟩ := List.mem_map.1 hx
      refine (reports_fillToken hsymbol hc ht hk).mono ?_
      rintro _ is ⟨y, rfl, hy⟩
      exact hy
  rw [substitute_eq, ← haside, replaceTokens_aside]
  refine hfilled.map ?_
  rintro _ _ ⟨ps, hps, rfl, rfl⟩
  have hputs : List.Forall₂ Symbol.Puts ((tokens t).map Symbol.token) (ps.map fun p => p.1.aside) := by
    rw [List.forall₂_map_right_iff]
    exact hps.imp fun x p h => h.1
  have heach : ∀ p ∈ ps.map fun p => (p.1.aside, p.2), Shows p.1 p.2 := fun p hp => by
    obtain ⟨q, hq, rfl⟩ := List.mem_map.1 hp
    obtain ⟨x, -, hx⟩ := Merging.exists_of_forall₂ hps.flip hq
    exact hx.2
  have hshows := shows_flatten heach (inners_flatten hfit hplace (by rwa [List.map_map]))
  rw [List.map_map, List.flatMap_map] at hshows
  rwa [List.flatMap_map, List.flatMap_def]

end Calm

/-! ## Tables without image markers -/

/-- Nothing is written in place of any marker. -/
def nothing : Filling where
  writes _ _ := False
  noPlaceholder h := h.elim
  nil h := h.elim
  newline h := h.elim
  dropLast h := h.elim

theorem eq_of_written_nothing {l r : Text} (h : Written pictured nothing l r) :
    l = r ∧ Text.contains Marker.opening l = false := by
  induction h with
  | nil => exact ⟨rfl, by decide⟩
  | @char ch x l r hx _ ih =>
    obtain ⟨he, hno⟩ := ih
    refine ⟨congrArg (ch :: ·) he, Text.contains_eq_false_iff.2 ?_⟩
    rintro (_ | ⟨d, a⟩) b hab
    · -- A brace outside markers is not followed by another one.
      obtain ⟨rfl, hrest⟩ := List.cons.inj hab
      obtain ⟨-, hx⟩ := hx
      rw [if_pos rfl] at hx
      obtain ⟨d, rfl, hd, -⟩ := hx
      exact hd (List.cons.inj hrest).1
    · exact Text.contains_eq_false_iff.1 hno a b (List.cons.inj hab).2
  | text hw => exact hw.elim

theorem pictures_of_noOpening (h : Text.contains Marker.opening t = false) : pictures t = [] := by
  have hn : Marker.next? t = none := Marker.next?_eq_none_iff.2 fun a inner b he =>
    Text.contains_eq_false_iff.1 h a (inner ++ Marker.closing ++ b) (by rw [he, Marker.enclose]; simp)
  rw [pictures_eq, inners, Marker.tokens_of_next?_none hn, filterMap_charTokens]
  rfl

/-- Texts without image markers count as done. -/
def noPictures : Finish pictured nothing where
  done l r := l = r ∧ pictures l = []
  oneLine := False
  whole h := ⟨(eq_of_written_nothing h).1, pictures_of_noOpening (eq_of_written_nothing h).2⟩
  lines := by
    intro l r h
    obtain ⟨rfl, hno⟩ := eq_of_written_nothing h
    refine List.forall₂_same.2 fun line hline => ⟨rfl, pictures_of_noOpening ?_⟩
    obtain ⟨a, b, hab⟩ := Text.exists_append_of_mem_join ['\n'] hline
    rw [← Text.unlines, Text.unlines_lines] at hab
    refine Text.contains_eq_false_iff.2 fun a' b' he => ?_
    exact Text.contains_eq_false_iff.1 hno (a ++ a') (b' ++ b) (by rw [hab, he]; simp)
  same := by
    intro l r _ h
    obtain ⟨rfl, hno⟩ := eq_of_written_nothing h
    refine ⟨rfl, ?_⟩
    rintro a m b rfl
    refine ⟨rfl, pictures_of_noOpening (Text.contains_eq_false_iff.2 fun a' b' he => ?_)⟩
    exact Text.contains_eq_false_iff.1 hno (a ++ a') (b' ++ b) (by rw [he]; simp)

end Section
end MailMerge
