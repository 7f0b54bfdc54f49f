import MailMerge.Proofs.Docx.Kept
import MailMerge.Proofs.Text.Calm
import MailMerge.Proofs.Tree.Carried
import MailMerge.Proofs.Xml.Filled
import MailMerge.Proofs.Xml.Tag

/-!
# Blocks that fit into a part

A character that is not legal is refused wherever it stands: what it stands in cannot be cut into tokens, and
neither can anything around it.

A merge has new texts, but no new markup: properties, styles and verbatim nodes are those that were read from
the part. These fit into it again, and so do blocks that carry nothing else, if all characters of their texts
are legal.

**`Leaves.parse?_of_refused`**: a document with a refused text at a place inside an element is not well-formed.

**`carries_fits_blocks`**: all that nodes carry fits into the part that they were read from.

**`fits_writeBlocks`**: blocks that are written fit into the part, if what they carry does.
-/

namespace MailMerge.Xml

variable {s t : Text} {c : Char}

/-- In whatever element the text stands, it cannot be cut into tokens, if a tag follows it. -/
def Refused (t : Text) : Prop :=
  ∀ depth u, u.head? = some '<' → lex (depth + 1) (withNewlines t ++ u) = none

/-! ## Illegal characters -/

theorem lex_of_next?_eq_none {depth : Nat} (hne : t ≠ []) (h : next? t = none) : lex depth t = none := by
  rw [lex, if_neg hne]
  split
  · rfl
  · next hnext =>
    rw [h] at hnext
    cases hnext

/-- A character that is not legal begins no token. -/
theorem next?_of_not_isLegal (h : ¬ isLegal c) (u : Text) : next? (c :: u) = none := by
  have hlt : c ≠ '<' := by
    rintro rfl
    exact h (by decide)
  have hamp : c ≠ '&' := by
    rintro rfl
    exact h (by decide)
  have hbracket : c ≠ ']' := by
    rintro rfl
    exact h (by decide)
  unfold next?
  split
  · rfl
  · next he => exact absurd (List.cons.inj he).1 hlt
  · next he => exact absurd (List.cons.inj he).1 hamp
  · rfl
  · next he =>
    obtain ⟨rfl, rfl⟩ := List.cons.inj he
    rw [if_neg h]

theorem lex_escape_of_not_isLegal (h : ∃ c ∈ t, ¬ isLegal c) {depth : Nat} {u : Text} (hu : u.head? = some '<') :
    lex (depth + 1) (escape t ++ u) = none := by
  induction t with
  | nil =>
    obtain ⟨c, hc, -⟩ := h
    cases hc
  | cons d t ih =>
    rw [escape_cons, List.append_assoc]
    by_cases hd : isLegal d
    · rw [lex_of_next? (next?_escapeChar hd (escape_append_ne t hu)) rfl, Option.map_eq_none_iff]
      refine ih ?_
      obtain ⟨c, hc, hillegal⟩ := h
      refine ⟨c, (List.mem_cons.1 hc).resolve_left ?_, hillegal⟩
      rintro rfl
      exact hillegal hd
    · have hsame : escapeChar d = [d] := by
        unfold escapeChar
        split_ifs with h₁ h₂ h₃
        · exact absurd (h₁ ▸ by decide) hd
        · exact absurd (h₂ ▸ by decide) hd
        · exact absurd (h₃ ▸ by decide) hd
        · rfl
      rw [hsame, List.singleton_append]
      exact lex_of_next?_eq_none (List.cons_ne_nil _ _) (next?_of_not_isLegal hd _)

/-- **An escaped text with an illegal character is refused.** -/
theorem refused_escape (h : ∃ c ∈ t, ¬ isLegal c) : Refused (escape t) := by
  intro depth u hu
  obtain ⟨c, hc, hillegal⟩ := h
  have hreturn : c ≠ '\r' := by
    rintro rfl
    exact hillegal (by decide)
  rw [withNewlines_escape]
  exact lex_escape_of_not_isLegal ⟨c, mem_withNewlines_of_mem hc hreturn, hillegal⟩ hu

/-! ## What stands around -/

namespace Refused

variable {d : Doctype} {scope : Scope} {items : List Item}

theorem append (hs : Refused s) (ht : Tagged t) : Refused (s ++ t) := by
  intro depth u hu
  rw [withNewlines_append s ht.head?_ne, List.append_assoc]
  exact hs depth _ (ht.withNewlines.head?_append hu)

theorem after (hs : Content d scope s items) (ht : Refused t) (htag : Tagged t) : Refused (s ++ t) := by
  obtain ⟨tokens, -, hs, -⟩ := hs
  intro depth u hu
  rw [withNewlines_append s htag.head?_ne, List.append_assoc, hs depth _ (htag.withNewlines.head?_append hu),
    ht depth u hu, Option.map_none]

/-- An element around the text is refused too. -/
theorem element {opened closing label : Text} {given : List (Text × List Piece)} (hreturn : '\r' ∉ opened)
    (hopened : markup? opened = some ([.start label given], [])) (h : Refused t) :
    Refused ('<' :: opened ++ t ++ '<' :: closing) := by
  intro depth u hu
  have hclosing : Tagged ('<' :: closing) := .inr rfl
  have hnext : ∀ v, next? ('<' :: opened ++ v) = some ([.start label given], v) := by
    intro v
    simpa [next?] using markup?_append hopened v
  rw [List.append_assoc, withNewlines_append_left (by simpa using hreturn),
    withNewlines_append t hclosing.head?_ne, List.append_assoc, List.append_assoc, lex_of_next? (hnext _) rfl,
    h _ _ (hclosing.withNewlines.head?_append hu), Option.map_none]

theorem between {name : Text} {attributes : List (Text × Text)} (hname : isQualifiedName name)
    (has : ∀ a ∈ attributes, IsWritable a) (h : Refused t) :
    Refused ('<' :: (name ++ settings attributes ++ ['>']) ++ t ++ '<' :: ('/' :: name ++ ['>'])) := by
  refine element ?_ (markup?_opening hname has) h
  simp [return_not_mem_of_isQualifiedName hname, return_not_mem_settings has]

end Refused

/-- **A document with a refused text at a place inside an element is not well-formed.** -/
theorem Leaves.parse?_of_refused {head foot : Text} {d : Doctype} {fs : List Frame} {allowed : Text → Prop}
    (h : Leaves head d fs allowed) (ht : Refused t) (hallowed : allowed (t ++ foot)) (hfoot : foot.head? = some '<') :
    parse? (head ++ t ++ foot) = none := by
  obtain ⟨depth, tokens, events, -, -, hparse⟩ := h
  rw [List.append_assoc, hparse _ hallowed, withNewlines_append t (by simp [hfoot]),
    ht depth _ (head?_withNewlines hfoot), Option.bind_none]

end MailMerge.Xml

namespace MailMerge.Xml.Element

theorem IsSound.children {e : Element} (h : e.IsSound) : ∀ c ∈ e.children, c.IsSound := by
  cases e with
  | mk name attributes text children tail => exact (isSound_mk.1 h).2

theorem IsSound.of_mem_all {e x : Element} (h : e.IsSound) (hx : x ∈ e.all) : x.IsSound :=
  fun y hy => h y (Docx.mem_all_trans hy hx)

end MailMerge.Xml.Element

namespace MailMerge.Docx

open Xml
open Node (Level paragraphsAt paragraphsFrom)

variable {d : Doctype} {scope : Xml.Scope} {l : Labelling}

/-! ## What is read -/

theorem fits_childXml (h : l.InForce scope) (hd : d.rules = []) {e : Element} (he : e.IsSound)
    (name : Name) : Fits d scope (l.childXml e name) := by
  unfold Labelling.childXml
  cases hc : e.child? name with
  | none => exact .nil
  | some c => exact fits_verbatim h hd (he.children c (List.mem_of_find?_eq_some hc))

theorem carries_fits_runs (h : l.InForce scope) (hd : d.rules = []) {e : Element} (he : e.IsSound) :
    ∀ r ∈ runs l e, r.Carries (Fits d scope) := by
  have hstyle := fits_childXml h hd he Tag.runProperties
  intro r hr
  unfold runs at hr
  dsimp only at hr
  split at hr
  · obtain rfl := List.mem_singleton.1 hr
    refine ⟨hstyle, fun xml hxml => ?_⟩
    obtain rfl := Option.some.inj hxml
    exact fits_verbatim h hd he
  · cases hr
  · obtain rfl := List.mem_singleton.1 hr
    exact ⟨hstyle, fun xml hxml => absurd hxml (Option.not_mem_none xml)⟩

theorem carries_fits_paragraphRuns (h : l.InForce scope) (hd : d.rules = []) {e : Element} (he : e.IsSound) :
    ∀ r ∈ paragraphRuns l e, r.Carries (Fits d scope) := by
  intro r hr
  unfold paragraphRuns at hr
  split at hr
  · exact carries_fits_runs h hd he r hr
  · split at hr
    · obtain ⟨x, hx, hr⟩ := List.mem_flatMap.1 hr
      exact carries_fits_runs h hd (he.of_mem_all (List.mem_filter.1 hx).1) r hr
    · split at hr
      · cases hr
      · obtain rfl := List.mem_singleton.1 hr
        refine ⟨.nil, fun xml hxml => ?_⟩
        obtain rfl := Option.some.inj hxml
        exact fits_verbatim h hd he

theorem carries_fits_paragraphNode (h : l.InForce scope) (hd : d.rules = []) {e : Element} (he : e.IsSound) :
    (paragraphNode l e).Carries (Fits d scope) := by
  have hproperties := fits_childXml h hd he Tag.paragraphProperties
  unfold paragraphNode
  dsimp only
  split
  · exact .pageBreak hproperties
  · refine .paragraph ⟨hproperties, fun r hr => ?_⟩
    obtain ⟨c, hc, hr⟩ := List.mem_flatMap.1 hr
    exact carries_fits_paragraphRuns h hd (he.children c hc) r hr

mutual

/-- **All that nodes carry fits into the part that they are read from.** -/
theorem carries_fits_blocks (h : l.InForce scope) (hd : d.rules = []) (skipped : Option Name) :
    ∀ es : List Element, (∀ e ∈ es, e.IsSound) → ∀ n ∈ blocks l skipped es, n.Carries (Fits d scope)
  | [], _, n, hn => by
    rw [blocks] at hn
    cases hn
  | e :: es, hes, n, hn => by
    rw [List.forall_mem_cons] at hes
    rw [blocks, List.mem_append] at hn
    rcases hn with hn | hn
    · split at hn
      · cases hn
      · exact carries_fits_block h hd e hes.1 n hn
    · exact carries_fits_blocks h hd skipped es hes.2 n hn

theorem carries_fits_block (h : l.InForce scope) (hd : d.rules = []) :
    ∀ e : Element, e.IsSound → ∀ n ∈ block l e, n.Carries (Fits d scope)
  | .mk name attributes text children tail, he, n, hn => by
    have hverbatim := fits_verbatim h hd he
    have hchildren : ∀ c ∈ children, c.IsSound := he.children
    rw [block] at hn
    split at hn
    · obtain rfl := List.mem_singleton.1 hn
      exact carries_fits_paragraphNode h hd he
    · split at hn
      · obtain rfl := List.mem_singleton.1 hn
        have hfront := (fits_childXml h hd he Tag.tableProperties).append (fits_childXml h hd he Tag.tableGrid)
        exact .table hfront (carries_fits_rows h hd children hchildren)
      · split at hn
        · cases hc : controlBlocks? l children with
          | none =>
            rw [hc] at hn
            obtain rfl := List.mem_singleton.1 hn
            exact .verbatim hverbatim
          | some ns =>
            rw [hc] at hn
            exact carries_fits_control h hd children hchildren ns hc n hn
        · obtain rfl := List.mem_singleton.1 hn
          exact .verbatim hverbatim

theorem carries_fits_control (h : l.InForce scope) (hd : d.rules = []) :
    ∀ es : List Element, (∀ e ∈ es, e.IsSound) → ∀ ns, controlBlocks? l es = some ns →
      ∀ n ∈ ns, n.Carries (Fits d scope)
  | [], _, ns, hns => by
    rw [controlBlocks?] at hns
    cases hns
  | .mk name attributes text children tail :: es, hes, ns, hns => by
    rw [List.forall_mem_cons] at hes
    rw [controlBlocks?] at hns
    split at hns
    · obtain rfl := Option.some.inj hns
      exact carries_fits_blocks h hd none children hes.1.children
    · exact carries_fits_control h hd es hes.2 ns hns

theorem carries_fits_rows (h : l.InForce scope) (hd : d.rules = []) : ∀ es : List Element, (∀ e ∈ es, e.IsSound) →
    ∀ n ∈ rows l es, n.Carries (Fits d scope)
  | [], _, n, hn => by
    rw [rows] at hn
    cases hn
  | .mk name attributes text children tail :: es, hes, n, hn => by
    rw [List.forall_mem_cons] at hes
    rw [rows] at hn
    split at hn
    · rcases List.mem_cons.1 hn with rfl | hn
      · have hfront := (fits_childXml h hd hes.1 Tag.rowExceptions).append
          (fits_childXml h hd hes.1 Tag.rowProperties)
        exact .row hfront (carries_fits_cells h hd children hes.1.children)
      · exact carries_fits_rows h hd es hes.2 n hn
    · exact carries_fits_rows h hd es hes.2 n hn

theorem carries_fits_cells (h : l.InForce scope) (hd : d.rules = []) : ∀ es : List Element, (∀ e ∈ es, e.IsSound) →
    ∀ n ∈ cells l es, n.Carries (Fits d scope)
  | [], _, n, hn => by
    rw [cells] at hn
    cases hn
  | .mk name attributes text children tail :: es, hes, n, hn => by
    rw [List.forall_mem_cons] at hes
    rw [cells] at hn
    split at hn
    · rcases List.mem_cons.1 hn with rfl | hn
      · exact .cell (fits_childXml h hd hes.1 Tag.cellProperties)
          (carries_fits_blocks h hd (some Tag.cellProperties) children hes.1.children)
      · exact carries_fits_cells h hd es hes.2 n hn
    · exact carries_fits_cells h hd es hes.2 n hn

end

/-! ## What is written -/

/-- The text fits into a part if the condition holds, and makes the part unreadable if it does not. -/
structure FitsIff (d : Doctype) (scope : Xml.Scope) (P : Prop) (t : Text) : Prop where
  fits : P → Fits d scope t
  refused : ¬ P → Refused t
  tagged : Tagged t

theorem ReadAs.fits {t : Text} {es : List Element} (h : ReadAs d scope t es) : Fits d scope t :=
  ⟨⟨_, h.content⟩, h.tagged⟩

section Conditions

variable {P Q : Prop} {s t : Text} {α : Type} {f : α → Text} {C : α → Prop} {xs : List α}

theorem Fits.fitsIff (h : Fits d scope t) (hp : P) : FitsIff d scope P t where
  fits _ := h
  refused hn := absurd hp hn
  tagged := h.tagged

namespace FitsIff

theorem congr (h : FitsIff d scope P t) (hpq : P ↔ Q) : FitsIff d scope Q t :=
  propext hpq ▸ h

theorem append (hs : FitsIff d scope P s) (ht : FitsIff d scope Q t) : FitsIff d scope (P ∧ Q) (s ++ t) where
  fits h := (hs.fits h.1).append (ht.fits h.2)
  refused h := by
    by_cases hp : P
    · obtain ⟨items, hitems⟩ := (hs.fits hp).content
      exact .after hitems (ht.refused fun hq => h ⟨hp, hq⟩) ht.tagged
    · exact (hs.refused hp).append ht.tagged
  tagged := hs.tagged.append ht.tagged

/-- What comes before does not matter if it fits. -/
theorem after (hs : Fits d scope s) (ht : FitsIff d scope P t) : FitsIff d scope P (s ++ t) :=
  ((hs.fitsIff trivial).append ht).congr (iff_of_eq (true_and P))

/-- What comes after does not matter if it fits. -/
theorem before (hs : FitsIff d scope P s) (ht : Fits d scope t) : FitsIff d scope P (s ++ t) :=
  (hs.append (ht.fitsIff trivial)).congr (iff_of_eq (and_true P))

theorem flatMap (h : ∀ x ∈ xs, FitsIff d scope (C x) (f x)) :
    FitsIff d scope (∀ x ∈ xs, C x) (xs.flatMap f) := by
  induction xs with
  | nil => exact Fits.nil.fitsIff (List.forall_mem_nil _)
  | cons x xs ih =>
    rw [List.forall_mem_cons] at h
    exact (h.1.append (ih h.2)).congr List.forall_mem_cons.symm

theorem join {sep : Text} (hsep : Fits d scope sep) {ts : List Text} {g : Text → Text} {C : Text → Prop}
    (h : ∀ t ∈ ts, FitsIff d scope (C t) (g t)) :
    FitsIff d scope (∀ t ∈ ts, C t) (Text.join sep (ts.map g)) := by
  induction ts with
  | nil => exact Fits.nil.fitsIff (List.forall_mem_nil _)
  | cons t ts ih =>
    rw [List.forall_mem_cons] at h
    have ih := ih h.2
    cases ts with
    | nil => exact h.1.congr (by simp)
    | cons u us => exact ((h.1.before hsep).append ih).congr List.forall_mem_cons.symm

theorem markup {space : Text} (hm : TakesMarkup d scope space) (base : Text) (hbase : isName base)
    (h : FitsIff d scope P t) : FitsIff d scope P (element base t) := by
  have hname := isQualifiedName_markup hbase
  rw [element_eq]
  refine ⟨fun hp => ⟨?_, .inr rfl⟩, fun hp => ?_, .inr rfl⟩
  · obtain ⟨items, hitems⟩ := (h.fits hp).content
    have hc := @Enclosed.between _ _ d scope [] _ _ hm.rules hname (by simp)
      (@enter?_labelled scope ['w'] space base (by decide) hm.label) hitems
    exact ⟨_, by simpa [settings] using hc.content⟩
  · have hc := @Refused.between t _ [] hname (by simp) (h.refused hp)
    simpa [settings] using hc

end FitsIff

theorem Fits.markup {space : Text} (hm : TakesMarkup d scope space) (base : Text) (hbase : isName base)
    (h : Fits d scope t) : Fits d scope (element base t) :=
  ((h.fitsIff trivial).markup hm base hbase).fits trivial

end Conditions

/-! ## Texts -/

/-- All characters of the text are legal. -/
def IsLegalText (t : Text) : Prop :=
  ∀ c ∈ t, isLegal c

section Writing

variable {space t : Text}

theorem forall_mem_join {P : Char → Prop} {sep : Text} (hsep : ∀ c ∈ sep, P c) {ts : List Text}
    (h : ∀ t ∈ ts, ∀ c ∈ t, P c) : ∀ c ∈ Text.join sep ts, P c := by
  induction ts with
  | nil => exact List.forall_mem_nil _
  | cons t ts ih =>
    rw [List.forall_mem_cons] at h
    cases ts with
    | nil => exact h.1
    | cons u us => exact List.forall_mem_append.2 ⟨List.forall_mem_append.2 ⟨h.1, hsep⟩, ih h.2⟩

/-- The pieces of a text between separators are legal if the text is. -/
theorem isLegalText_splitOn {sep : Char} (hsep : isLegal sep) :
    (∀ u ∈ Text.splitOn sep t, IsLegalText u) ↔ IsLegalText t := by
  refine ⟨fun h => ?_, fun h u hu c hc => h c (mem_of_mem_splitOn hu hc).1⟩
  rw [IsLegalText, ← Text.join_splitOn sep t]
  exact forall_mem_join (List.forall_mem_singleton.2 hsep) h

theorem fitsIff_writeChunk (hm : TakesMarkup d scope space) (hline : '\n' ∉ t) :
    FitsIff d scope (IsLegalText t) (writeChunk t) where
  fits h := (readAs_chunkElements hm h hline).fits
  refused h := by
    have hillegal : ∃ c ∈ t, ¬ isLegal c := by simpa [IsLegalText] using h
    have hne : t ≠ [] := by
      rintro rfl
      exact h (List.forall_mem_nil _)
    have hc := @Refused.between _ "w:t".toList [("xml:space".toList, "preserve".toList)] (by decide) (by decide)
      (refused_escape hillegal)
    rw [writeChunk, if_neg hne]
    exact hc
  tagged := by
    unfold writeChunk
    split
    · exact .inl rfl
    · exact .inr rfl

theorem fitsIff_writeLine (hm : TakesMarkup d scope space) (hline : '\n' ∉ t) :
    FitsIff d scope (IsLegalText t) (writeLine t) := by
  have htab : Fits d scope "<w:tab/>".toList := (ReadAs.markupTag hm "tab" (by decide)).fits
  refine (FitsIff.join htab fun u hu => fitsIff_writeChunk hm ?_).congr (isLegalText_splitOn (by decide))
  intro hc
  exact hline (mem_of_mem_splitOn hu hc).1

theorem fitsIff_writeTextRun (hm : TakesMarkup d scope space) {style : Text} (hstyle : Fits d scope style) :
    FitsIff d scope (IsLegalText t) (writeTextRun t style) := by
  by_cases ht : t = []
  · rw [writeTextRun, if_pos ht, ht]
    exact Fits.nil.fitsIff (List.forall_mem_nil _)
  · have hbreak : Fits d scope "<w:br/>".toList := (ReadAs.markupTag hm "br" (by decide)).fits
    rw [writeTextRun_eq ht]
    refine .markup hm ['r'] (by decide) (.after hstyle ?_)
    refine (FitsIff.join hbreak fun u hu => fitsIff_writeLine hm ?_).congr (isLegalText_splitOn (by decide))
    intro hc
    exact (mem_of_mem_splitOn hu hc).2 rfl

/-- **A paragraph that is written fits if its text is legal**, and only then. -/
theorem fitsIff_writeParagraph (hm : TakesMarkup d scope space) {p : Paragraph} (hp : p.Carries (Fits d scope)) :
    FitsIff d scope (IsLegalText p.text) (writeParagraph p) := by
  have hruns : ∀ r ∈ p.runs, FitsIff d scope (r.raw.isNone → IsLegalText r.text) (writeRun r) := by
    intro r hr
    unfold writeRun
    cases hraw : r.raw with
    | some xml => exact ((hp.runs r hr).raw xml hraw).fitsIff (by simp)
    | none => exact (fitsIff_writeTextRun hm (hp.runs r hr).style).congr (by simp)
  refine .markup hm ['p'] (by decide) (.after hp.attributes ((FitsIff.flatMap hruns).congr ?_))
  simp only [IsLegalText, Paragraph.text, List.mem_flatMap, List.mem_filter]
  grind

theorem fits_cellEnd (hm : TakesMarkup d scope space) (nodes : List Node) : Fits d scope (cellEnd nodes) := by
  unfold cellEnd
  split
  · exact .nil
  · exact (ReadAs.markupTag hm "p" (by decide)).fits

/-! ## Blocks -/

/-- What is written first and what follows it. -/
theorem exists_of_append {x y : Except Defect Text} {f : Text → Text}
    (h : (do return f (← x) ++ (← y)) = Except.ok t) : ∃ u v, x = .ok u ∧ y = .ok v ∧ t = f u ++ v := by
  cases x with
  | error e => cases h
  | ok u =>
    cases y with
    | error e => cases h
    | ok v => exact ⟨u, v, rfl, rfl, (Except.ok.inj h).symm⟩

/-- All characters of the paragraphs are legal. -/
def AllLegal (ps : List (Path × Paragraph)) : Prop :=
  ∀ p ∈ ps, IsLegalText p.2.text

theorem allLegal_append {ps qs : List (Path × Paragraph)} : AllLegal (ps ++ qs) ↔ AllLegal ps ∧ AllLegal qs :=
  List.forall_mem_append

mutual

/-- **A block that is written fits if its texts are legal**, and only then, where all that it carries does. -/
theorem fitsIff_writeBlock (hm : TakesMarkup d scope space) : ∀ (n : Node) (here : Path) (t : Text),
    n.Carries (Fits d scope) → writeBlock n = .ok t →
      FitsIff d scope (AllLegal (paragraphsAt here .blocks n)) t
  | .paragraph p rendered, here, t, hn, h => by
    obtain rfl := Except.ok.inj h
    refine (fitsIff_writeParagraph hm (Node.carries_paragraph.1 hn)).congr ?_
    rw [paragraphsAt, AllLegal, List.forall_mem_singleton]
  | .table attributes rows rendered, here, t, hn, h => by
    rw [writeBlock] at h
    rw [paragraphsAt]
    cases hrows : writeRows rows with
    | error e =>
      rw [hrows] at h
      cases h
    | ok u =>
      rw [hrows] at h
      obtain rfl := Except.ok.inj h
      exact .markup hm "tbl" (by decide)
        (.after (hn.attributes .nil) (fitsIff_writeRows hm rows here 0 u hn.children hrows))
  | .row .., _, _, _, h => by cases h
  | .cell .., _, _, _, h => by cases h
  | .pageBreak attributes, here, t, hn, h => by
    obtain rfl := Except.ok.inj h
    have hbreak := Fits.markup hm ['p'] (by decide) ((hn.attributes .nil).append (readAs_break hm).fits)
    exact hbreak.fitsIff (by simp [paragraphsAt, AllLegal])
  | .verbatim xml, here, t, hn, h => by
    obtain rfl := Except.ok.inj h
    cases hn with
    | verbatim hxml => exact hxml.fitsIff (by simp [paragraphsAt, AllLegal])

/-- **Blocks that are written fit if their texts are legal**, and only then. -/
theorem fitsIff_writeBlocks (hm : TakesMarkup d scope space) :
    ∀ (ns : List Node) (above : Path) (index : Nat) (t : Text),
      (∀ n ∈ ns, n.Carries (Fits d scope)) → writeBlocks ns = .ok t →
        FitsIff d scope (AllLegal (paragraphsFrom above index .blocks ns)) t
  | [], _, _, t, _, h => by
    obtain rfl := Except.ok.inj h
    rw [paragraphsFrom]
    exact Fits.nil.fitsIff (List.forall_mem_nil _)
  | n :: ns, above, index, t, hns, h => by
    rw [List.forall_mem_cons] at hns
    rw [writeBlocks] at h
    rw [paragraphsFrom]
    obtain ⟨u, v, hu, hv, rfl⟩ := @exists_of_append _ _ _ id h
    exact ((fitsIff_writeBlock hm n _ u hns.1 hu).append
      (fitsIff_writeBlocks hm ns above _ v hns.2 hv)).congr allLegal_append.symm

theorem fitsIff_writeRows (hm : TakesMarkup d scope space) :
    ∀ (ns : List Node) (above : Path) (index : Nat) (t : Text),
      (∀ n ∈ ns, n.Carries (Fits d scope)) → writeRows ns = .ok t →
        FitsIff d scope (AllLegal (paragraphsFrom above index .rows ns)) t
  | [], _, _, t, _, h => by
    obtain rfl := Except.ok.inj h
    rw [paragraphsFrom]
    exact Fits.nil.fitsIff (List.forall_mem_nil _)
  | .row attributes cells rendered :: ns, above, index, t, hns, h => by
    rw [List.forall_mem_cons] at hns
    rw [writeRows] at h
    rw [paragraphsFrom, paragraphsAt]
    obtain ⟨u, v, hu, hv, rfl⟩ := @exists_of_append _ _ _ (fun u => element "tr" (attributes ++ u)) h
    have hrow := FitsIff.markup hm "tr" (by decide)
      (.after (hns.1.attributes .nil) (fitsIff_writeCells hm cells (above ++ [index]) 0 u hns.1.children hu))
    exact (hrow.append (fitsIff_writeRows hm ns above _ v hns.2 hv)).congr allLegal_append.symm
  | .paragraph .. :: _, _, _, _, _, h | .table .. :: _, _, _, _, _, h | .cell .. :: _, _, _, _, _, h
  | .pageBreak .. :: _, _, _, _, _, h | .verbatim .. :: _, _, _, _, _, h => by cases h

theorem fitsIff_writeCells (hm : TakesMarkup d scope space) :
    ∀ (ns : List Node) (above : Path) (index : Nat) (t : Text),
      (∀ n ∈ ns, n.Carries (Fits d scope)) → writeCells ns = .ok t →
        FitsIff d scope (AllLegal (paragraphsFrom above index .cells ns)) t
  | [], _, _, t, _, h => by
    obtain rfl := Except.ok.inj h
    rw [paragraphsFrom]
    exact Fits.nil.fitsIff (List.forall_mem_nil _)
  | .cell attributes nodes rendered :: ns, above, index, t, hns, h => by
    rw [List.forall_mem_cons] at hns
    rw [writeCells] at h
    rw [paragraphsFrom, paragraphsAt]
    obtain ⟨u, v, hu, hv, rfl⟩ :=
      @exists_of_append _ _ _ (fun u => element "tc" (attributes ++ u ++ cellEnd nodes)) h
    have hinner := fitsIff_writeBlocks hm nodes (above ++ [index]) 0 u hns.1.children hu
    have hcell := FitsIff.markup hm "tc" (by decide)
      (.before (.after (hns.1.attributes .nil) hinner) (fits_cellEnd hm nodes))
    exact (hcell.append (fitsIff_writeCells hm ns above _ v hns.2 hv)).congr allLegal_append.symm
  | .paragraph .. :: _, _, _, _, _, h | .table .. :: _, _, _, _, _, h | .row .. :: _, _, _, _, _, h
  | .pageBreak .. :: _, _, _, _, _, h | .verbatim .. :: _, _, _, _, _, h => by cases h

end

end Writing

end MailMerge.Docx
