import MailMerge.Docx.Declaration
import MailMerge.Proofs.Text.Calm
import MailMerge.Proofs.Xml.Sound
import MailMerge.Xml.Writing

/-!
# Labels of fragments

A register gives each namespace one label, and no label to two namespaces. The parts of a document register
what their roots declare, so a declaration that is not in force where a fragment is put would spoil the
fragment.

**`RegisterIsSound.registerAll`**: the declarations of a root leave the register sound, if they are in force.

**`exists_label_of_mem_names`**: in a fragment each namespace has a label that is a name, and only one.
-/

namespace MailMerge.Docx

open Xml

/-! ## What a root tag declares -/

/-- A declaration is read from the text that it is written as. -/
theorem Declaration.eq_append_of_read? {t after : Text} {e : Declaration}
    (h : Declaration.read? t = some (e, after)) :
    t = "xmlns:".toList ++ e.label ++ ['=', '"'] ++ e.space ++ ['"'] ++ after ∧
      (∀ c ∈ e.label, Text.isWordChar c) ∧ e.label ≠ [] ∧ '"' ∉ e.space := by
  simp only [Declaration.read?, Option.bind_eq_bind, Option.bind_eq_some_iff] at h
  obtain ⟨t₁, h₁, h⟩ := h
  split at h
  · cases h
  · next hne =>
    obtain ⟨t₂, h₂, ⟨space, rest⟩, hcut, he⟩ := by
      simpa only [Option.bind_eq_some_iff] using h
    obtain ⟨rfl, rfl⟩ := Prod.mk.inj (Option.some.inj he)
    refine ⟨?_, List.all_eq_true.1 List.all_takeWhile, hne, Text.notMem_of_cutFirst? hcut⟩
    have hlabel := List.prefix_iff_eq_append.1 (List.takeWhile_prefix Text.isWordChar (l := t₁))
    rw [Text.eq_append_of_dropStart? h₂, Text.eq_append_of_cutFirst? hcut] at hlabel
    rw [Text.eq_append_of_dropStart? h₁]
    conv_lhs => rw [← hlabel]
    simp

/-- The form of a declaration that is found in a tag: the label is a word, and the namespace is what stands
between two quotes inside the tag. -/
structure Declaration.IsFound (e : Declaration) : Prop where
  word : ∀ c ∈ e.label, Text.isWordChar c
  ne_nil : e.label ≠ []
  quote : '"' ∉ e.space
  angle : '>' ∉ e.space

theorem Declaration.isFound_of_read? {t after : Text} {e : Declaration} (ht : '>' ∉ t)
    (h : Declaration.read? t = some (e, after)) : e.IsFound ∧ '>' ∉ after := by
  obtain ⟨rfl, hword, hne, hquote⟩ := eq_append_of_read? h
  simp only [List.mem_append, not_or] at ht
  exact ⟨⟨hword, hne, hquote, ht.1.1.2⟩, ht.2⟩

theorem Declaration.isFound_of_mem_scan {t : Text} (ht : '>' ∉ t) :
    ∀ e ∈ Declaration.scan t, e.IsFound := by
  fun_induction Declaration.scan t with
  | case1 => simp
  | case2 c rest e after h ih =>
    obtain ⟨hfound, hafter⟩ := isFound_of_read? ht h
    exact List.forall_mem_cons.2 ⟨hfound, ih hafter⟩
  | case3 c rest h ih => exact ih fun hc => ht (List.mem_cons_of_mem c hc)

theorem Declarations.mem_put {ds : Declarations} {d e : Declaration} (h : e ∈ ds.put d) : e ∈ ds ∨ e = d := by
  unfold put at h
  split at h
  · obtain ⟨x, hx, rfl⟩ := List.mem_map.1 h
    by_cases hl : x.label = d.label
    · exact .inr (if_pos hl)
    · rw [if_neg hl]
      exact .inl hx
  · simpa using h

theorem Declarations.mem_foldl_put {ds es : Declarations} {e : Declaration} (h : e ∈ es.foldl put ds) :
    e ∈ ds ∨ e ∈ es := by
  induction es generalizing ds with
  | nil => exact .inl h
  | cons d es ih =>
    rcases ih h with h | h
    · rcases mem_put h with h | rfl
      · exact .inl h
      · exact .inr List.mem_cons_self
    · exact .inr (List.mem_cons_of_mem d h)

theorem Declarations.angle_notMem_rootTag? {t inside : Text} (h : rootTag? t = some inside) :
    '>' ∉ inside := by
  fun_induction rootTag? t with
  | case1 => cases h
  | case2 c t hstart tag rest hcut =>
    obtain rfl := Option.some.inj h
    exact Text.notMem_of_cutFirst? hcut
  | case3 c t hstart hcut ih => exact ih h
  | case4 c t hstart ih => exact ih h

theorem Declarations.isFound_of_mem_ofDocument {xml : Text} {e : Declaration} (h : e ∈ ofDocument xml) :
    e.IsFound := by
  rcases mem_foldl_put h with h | h
  · cases h
  · refine Declaration.isFound_of_mem_scan ?_ e h
    cases hr : rootTag? xml with
    | none => simp
    | some inside => exact angle_notMem_rootTag? hr

/-- A declaration is in force in a scope if its label is bound there, and to the namespace that it gives when
this is written as the writer would. The label of XML itself is declared for XML itself only. -/
structure Declaration.InForce (scope : Xml.Scope) (e : Declaration) : Prop where
  bound : (scope.lookup e.label).isSome
  space : ∀ s, (∀ c ∈ s, isLegal c) → escapeValue s = e.space → scope.lookup e.label = some s
  xml : e.label = "xml".toList → e.space = Xml.Scope.xmlSpace
  closed : '<' ∉ e.space

/-- A declaration of a label that is bound to the namespace, as the writer gives it. -/
theorem Declaration.inForce_escapeValue {scope : Xml.Scope} {label space : Text}
    (hbound : scope.lookup label = some space) (hspace : ∀ c ∈ space, isLegal c) (hxml : label ≠ "xml".toList)
    (hclosed : '<' ∉ escapeValue space) :
    Declaration.InForce scope { label, space := escapeValue space } where
  bound := by rw [hbound]; rfl
  space s hs he := by rw [hbound, escapeValue_inj hs hspace he]
  xml h := absurd h hxml
  closed := hclosed

/-! ## The register -/

/-- The label can be written as the label of a namespace, and be read where declarations are cut out. -/
structure IsLabel (label : Text) : Prop where
  name : isName label
  word : ∀ c ∈ label, Text.isWordChar c
  ne_bindingLabel : label ≠ Xml.Scope.bindingLabel

/-- The register gives no label to two namespaces, and numbers none of them. -/
structure RegisterIsSound (labels : Labels) : Prop where
  unique : ∀ e ∈ labels, ∀ e' ∈ labels, e.2 = e'.2 → e.1 = e'.1
  label : ∀ e ∈ labels, IsLabel e.2 ∧ ¬ Declarations.isNumbered e.2
  xml : labels.lookup Xml.Scope.xmlSpace = some Labels.reserved

theorem mem_of_lookup {labels : Labels} {space label : Text} (h : labels.lookup space = some label) :
    (space, label) ∈ labels := by
  obtain ⟨before, rest, rfl, -⟩ := List.lookup_eq_some_iff.1 h
  exact List.mem_append_right before List.mem_cons_self

theorem registerIsSound_standard : RegisterIsSound Labels.standard where
  unique := by decide
  label := by
    have h : ∀ e ∈ Labels.standard, (isName e.2 ∧ (∀ c ∈ e.2, Text.isWordChar c) ∧
        e.2 ≠ Xml.Scope.bindingLabel) ∧ ¬ Declarations.isNumbered e.2 := by
      decide +kernel
    intro e he
    obtain ⟨⟨hname, hword, hne⟩, hnumbered⟩ := h e he
    exact ⟨⟨hname, hword, hne⟩, hnumbered⟩
  xml := rfl

namespace RegisterIsSound

variable {labels : Labels}

/-- One more label. It belongs to XML itself just if the namespace does. -/
theorem register (h : RegisterIsSound labels) {label space : Text} (hlabel : IsLabel label)
    (hnumbered : ¬ Declarations.isNumbered label)
    (hxml : label = "xml".toList ↔ space = Xml.Scope.xmlSpace) :
    RegisterIsSound (labels.register label space) where
  unique := by
    have hrest : ∀ e ∈ labels.filter (fun e => e.1 ≠ space ∧ e.2 ≠ label), e ∈ labels ∧ e.2 ≠ label := by
      intro e he
      simp only [List.mem_filter, decide_eq_true_eq] at he
      exact ⟨he.1, he.2.2⟩
    intro e he e' he' heq
    rcases List.mem_cons.1 he with rfl | he <;> rcases List.mem_cons.1 he' with rfl | he'
    · rfl
    · exact absurd heq.symm (hrest e' he').2
    · exact absurd heq (hrest e he).2
    · exact h.unique e (hrest e he).1 e' (hrest e' he').1 heq
  label := by
    intro e he
    rcases List.mem_cons.1 he with rfl | he
    · exact ⟨hlabel, hnumbered⟩
    · exact h.label e (List.mem_filter.1 he).1
  xml := by
    rw [Labels.register, List.lookup_cons]
    by_cases hspace : space = Xml.Scope.xmlSpace
    · rw [hspace, beq_self_eq_true]
      exact congrArg some (hxml.2 hspace)
    · have hne : (Xml.Scope.xmlSpace == space) = false := beq_eq_false_iff_ne.2 (Ne.symm hspace)
      rw [hne]
      have hlabel : label ≠ Labels.reserved := fun he => hspace (hxml.1 he)
      have hxml := h.xml
      clear h
      induction labels with
      | nil => cases hxml
      | cons e labels ih =>
        obtain ⟨s, l⟩ := e
        rw [List.lookup_cons] at hxml
        by_cases hs : s = Xml.Scope.xmlSpace
        · subst hs
          rw [beq_self_eq_true] at hxml
          obtain rfl := Option.some.inj hxml
          rw [List.filter_cons_of_pos (by simp [Ne.symm hspace, Ne.symm hlabel]), List.lookup_cons,
            beq_self_eq_true]
        · have hbeq : (Xml.Scope.xmlSpace == s) = false := beq_eq_false_iff_ne.2 (Ne.symm hs)
          rw [hbeq] at hxml
          have ih := ih hxml
          by_cases hkept : s ≠ space ∧ l ≠ label
          · rw [List.filter_cons_of_pos (by simpa using hkept), List.lookup_cons, hbeq]
            exact ih
          · rw [List.filter_cons_of_neg (by simpa using hkept)]
            exact ih

/-- **Declarations that are in force leave the register sound.** -/
theorem registerAll (h : RegisterIsSound labels) {scope : Xml.Scope} (hscope : scope.IsSound)
    {ds : Declarations} (hfound : ∀ e ∈ ds, e.IsFound) (hforce : ∀ e ∈ ds, e.InForce scope) :
    RegisterIsSound (ds.register labels) := by
  unfold Declarations.register
  have hds : ∀ e ∈ ds.filter (fun d => !Declarations.isNumbered d.label), e ∈ ds ∧
      ¬ Declarations.isNumbered e.label := by
    intro e he
    simpa using he
  generalize ds.filter (fun d => !Declarations.isNumbered d.label) = es at hds
  induction es generalizing labels with
  | nil => exact h
  | cons e es ih =>
    obtain ⟨hmem, hnumbered⟩ := hds e List.mem_cons_self
    refine ih (h.register ?_ hnumbered ⟨(hforce e hmem).xml, ?_⟩) fun x hx => hds x (List.mem_cons_of_mem e hx)
    · obtain ⟨s, hs⟩ := Option.isSome_iff_exists.1 (hforce e hmem).bound
      have hbinding := hscope.of_lookup hs
      exact ⟨hbinding.name.resolve_left (hfound e hmem).ne_nil, (hfound e hmem).word,
        hbinding.ne_bindingLabel⟩
    · intro hspace
      have hs := (hforce e hmem).space Xml.Scope.xmlSpace (by decide) (by rw [hspace]; decide)
      exact (hscope.of_lookup hs).xml.2 rfl

end RegisterIsSound

/-! ## The labels of a fragment -/

/-- The label of a namespace that is not registered. -/
def numberedLabel (n : Nat) : Text :=
  'n' :: 's' :: Text.ofNat n

theorem isNumbered_numberedLabel (n : Nat) : Declarations.isNumbered (numberedLabel n) := by
  have hdigits : ∀ c ∈ Text.ofNat n, Text.isDecimalDigit c := fun c hc =>
    Text.isDecimalDigit_of_mem_ofNat hc
  simpa [Declarations.isNumbered, numberedLabel, Text.dropStart?, Text.ofNat_ne_nil] using hdigits

theorem numberedLabel_inj {m n : Nat} (h : numberedLabel m = numberedLabel n) : m = n :=
  Text.ofNat_inj.1 (List.cons.inj (List.cons.inj h).2).2

theorem isLabel_numberedLabel (n : Nat) : IsLabel (numberedLabel n) := by
  have hdigit : ∀ c ∈ Text.ofNat n, isNameChar c ∧ Text.isWordChar c := by
    intro c hc
    have hd : c.isDigit := Text.isDigit_of_mem_ofNat hc
    have hlt : c.toNat < 58 := by
      simp only [Char.isDigit, Bool.and_eq_true, decide_eq_true_eq, UInt32.le_iff_toNat_le] at hd
      exact Nat.lt_succ_of_le hd.2
    exact Text.forall_toNat_lt (P := fun c => c.isDigit → isNameChar c ∧ Text.isWordChar c)
      (by decide +kernel) hlt hd
  have hstart : isNameStart 'n' ∧ isNameChar 'n' ∧ isNameChar 's' ∧ Text.isWordChar 'n' ∧
      Text.isWordChar 's' := by
    decide +kernel
  obtain ⟨hn, hn', hs, hwn, hws⟩ := hstart
  have hchars : ∀ c ∈ Text.ofNat n, isNameChar c := fun c hc => (hdigit c hc).1
  refine ⟨?_, ?_, ?_⟩
  · simpa [isName, numberedLabel, hn, hn', hs] using hchars
  · intro c hc
    rcases List.mem_cons.1 hc with rfl | hc
    · exact hwn
    · rcases List.mem_cons.1 hc with rfl | hc
      · exact hws
      · exact (hdigit c hc).2
  · intro he
    cases he

/-- The labels that a fragment uses: each namespace once and each label once. A label is registered for its
namespace, or is one of the numbers that have been given. -/
structure UsesSound (registered used : Labels) : Prop where
  spaces : (used.map (·.1)).Nodup
  labels : (used.map (·.2)).Nodup
  label : ∀ e ∈ used, IsLabel e.2 ∧ e.2 ≠ Labels.reserved
  source : ∀ e ∈ used, (e.1, e.2) ∈ registered ∨ ∃ n < used.length, e.2 = numberedLabel n
  space : ∀ e ∈ used, IsSpace e.1 ∧ e.1 ≠ [] ∧ e.1 ≠ Xml.Scope.xmlSpace

theorem usesSound_nil (registered : Labels) : UsesSound registered [] :=
  ⟨by simp, by simp, by simp, by simp, by simp⟩

/-- The namespace of a name has a label in the fragment, or is the one of XML itself. -/
def HasLabel (used : Labels) (space : Text) : Prop :=
  space = [] ∨ space = Xml.Scope.xmlSpace ∨ (used.lookup space).isSome

theorem choose_cases (registered used : Labels) (space : Text) :
    (space, Labels.choose registered used space) ∈ registered ∨
      Labels.choose registered used space = numberedLabel used.length := by
  unfold Labels.choose
  cases h : registered.lookup space with
  | none => exact .inr rfl
  | some label => exact .inl (mem_of_lookup h)

theorem choose_eq_reserved_iff {registered : Labels} (h : RegisterIsSound registered) (used : Labels)
    {space : Text} :
    Labels.choose registered used space = Labels.reserved ↔ space = Xml.Scope.xmlSpace := by
  constructor
  · intro he
    rcases choose_cases registered used space with hmem | hnumber
    · exact h.unique _ hmem _ (mem_of_lookup h.xml) he
    · rw [hnumber] at he
      cases he
  · rintro rfl
    rw [Labels.choose, h.xml]
    rfl

namespace UsesSound

variable {registered used : Labels}

theorem notMem_spaces {space : Text} (hnone : used.lookup space = none) : space ∉ used.map (·.1) := by
  intro hmem
  obtain ⟨e, he, hspace⟩ := List.mem_map.1 hmem
  have := List.lookup_eq_none_iff.1 hnone e he
  simp [hspace] at this

/-- **The label for one more namespace is none of those in use**: registered labels differ from each other and
from the numbered ones, and no number is given twice. -/
theorem choose_notMem (hr : RegisterIsSound registered) (h : UsesSound registered used) {space : Text}
    (hnone : used.lookup space = none) :
    Labels.choose registered used space ∉ used.map (·.2) := by
  intro hmem
  obtain ⟨e, he, heq⟩ := List.mem_map.1 hmem
  rcases choose_cases registered used space with hregistered | hnumber <;>
    rcases h.source e he with hsource | ⟨k, hlt, hk⟩
  · exact notMem_spaces hnone (List.mem_map.2 ⟨e, he, hr.unique _ hsource _ hregistered heq⟩)
  · refine (hr.label _ hregistered).2 ?_
    show Declarations.isNumbered (Labels.choose registered used space)
    rw [← heq, hk]
    exact isNumbered_numberedLabel k
  · refine (hr.label _ hsource).2 ?_
    show Declarations.isNumbered e.2
    rw [heq, hnumber]
    exact isNumbered_numberedLabel _
  · rw [hnumber, hk] at heq
    exact absurd (numberedLabel_inj heq) (Nat.ne_of_lt hlt)

/-- One more namespace with its label. -/
theorem add (hr : RegisterIsSound registered) (h : UsesSound registered used) {space : Text}
    (hnone : used.lookup space = none)
    (hspace : IsSpace space ∧ space ≠ [] ∧ space ≠ Xml.Scope.xmlSpace) :
    UsesSound registered (used ++ [(space, Labels.choose registered used space)]) where
  spaces := by
    rw [List.map_append]
    exact (List.perm_append_singleton _ _).nodup_iff.2 (List.nodup_cons.2 ⟨notMem_spaces hnone, h.spaces⟩)
  labels := by
    rw [List.map_append]
    exact (List.perm_append_singleton _ _).nodup_iff.2 (List.nodup_cons.2 ⟨h.choose_notMem hr hnone, h.labels⟩)
  label := by
    refine List.forall_mem_append.2 ⟨h.label, List.forall_mem_singleton.2 ⟨?_, ?_⟩⟩
    · rcases choose_cases registered used space with hregistered | hnumber
      · exact (hr.label _ hregistered).1
      · dsimp only
        rw [hnumber]
        exact isLabel_numberedLabel _
    · exact fun hreserved => hspace.2.2 ((choose_eq_reserved_iff hr used).1 hreserved)
  source := by
    refine List.forall_mem_append.2 ⟨fun e he => ?_, List.forall_mem_singleton.2 ?_⟩
    · refine (h.source e he).imp_right ?_
      rintro ⟨k, hk, heq⟩
      exact ⟨k, by rw [List.length_append]; exact Nat.lt_add_right _ hk, heq⟩
    · exact (choose_cases registered used space).imp_right fun hnumber => ⟨used.length, by simp, hnumber⟩
  space := List.forall_mem_append.2 ⟨h.space, List.forall_mem_singleton.2 hspace⟩

/-- One more name. -/
theorem use (hr : RegisterIsSound registered) (h : UsesSound registered used) {n : Name} (hn : IsSpace n.space) :
    UsesSound registered (Labels.use registered used n) ∧
      HasLabel (Labels.use registered used n) n.space := by
  unfold Labels.use
  dsimp only
  split
  · next hknown => exact ⟨h, hknown.imp_right .inr⟩
  · next hnew =>
    rw [not_or, Option.not_isSome_iff_eq_none] at hnew
    obtain ⟨hne, hnone⟩ := hnew
    by_cases hxml : Labels.choose registered used n.space = Labels.reserved
    · rw [if_pos hxml]
      exact ⟨h, .inr (.inl ((choose_eq_reserved_iff hr used).1 hxml))⟩
    · rw [if_neg hxml]
      have hspace : n.space ≠ Xml.Scope.xmlSpace := fun he => hxml ((choose_eq_reserved_iff hr used).2 he)
      refine ⟨h.add hr hnone ⟨hn, hne, hspace⟩, .inr (.inr ?_)⟩
      rw [List.lookup_append, hnone]
      simp

/-- A name keeps its label. -/
theorem hasLabel_use {space : Text} (n : Name) (h : HasLabel used space) :
    HasLabel (Labels.use registered used n) space := by
  unfold Labels.use
  dsimp only
  split
  · exact h
  · split
    · exact h
    · refine h.imp_right fun h => h.imp_right fun h => ?_
      rw [List.lookup_append]
      cases hl : used.lookup space with
      | none =>
        rw [hl] at h
        cases h
      | some label => rfl

/-- **The labels that are used for names are sound, and each name has one.** -/
theorem foldl (hr : RegisterIsSound registered) (h : UsesSound registered used) {ns : List Name}
    (hns : ∀ n ∈ ns, IsSpace n.space) :
    UsesSound registered (ns.foldl (Labels.use registered) used) ∧
      (∀ space, HasLabel used space → HasLabel (ns.foldl (Labels.use registered) used) space) ∧
      ∀ n ∈ ns, HasLabel (ns.foldl (Labels.use registered) used) n.space := by
  induction ns generalizing used with
  | nil => exact ⟨h, fun _ h => h, by simp⟩
  | cons n ns ih =>
    rw [List.forall_mem_cons] at hns
    obtain ⟨huse, hlabel⟩ := h.use hr hns.1
    obtain ⟨hfold, hkept, hall⟩ := ih huse hns.2
    exact ⟨hfold, fun space hs => hkept space (hasLabel_use n hs),
      List.forall_mem_cons.2 ⟨hkept _ hlabel, hall⟩⟩

end UsesSound

/-- The label of a name in a fragment: its namespace is bound to it there. -/
def LabelledBy (used : Labels) (space label : Text) : Prop :=
  IsLabel label ∧ (label = Labels.reserved ∧ space = Xml.Scope.xmlSpace ∨ (space, label) ∈ used)

/-- **A name in a namespace is written behind the label of the namespace.** -/
theorem exists_label_of_hasLabel {registered used : Labels} (hr : RegisterIsSound registered)
    (h : UsesSound registered used) {n : Name} (hn : HasLabel used n.space) (hne : n.space ≠ []) :
    ∃ label, Labels.qualify registered used n = label ++ ':' :: n.base ∧ LabelledBy used n.space label := by
  rw [Labels.qualify, if_neg hne]
  dsimp only
  refine ⟨_, rfl, ?_⟩
  cases hl : used.lookup n.space with
  | some label =>
    have hmem := mem_of_lookup hl
    exact ⟨(h.label _ hmem).1, .inr hmem⟩
  | none =>
    rw [HasLabel, hl] at hn
    have hspace : n.space = Xml.Scope.xmlSpace := by
      rcases hn with hn | hn | hn
      · exact absurd hn hne
      · exact hn
      · cases hn
    have hreserved := (choose_eq_reserved_iff hr used).2 hspace
    rw [Option.getD_none, hreserved]
    exact ⟨(hr.label _ (mem_of_lookup hr.xml)).1, .inl ⟨rfl, hspace⟩⟩

end MailMerge.Docx
