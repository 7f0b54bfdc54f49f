import MailMerge.Proofs.Xml.Filled
import MailMerge.Proofs.Xml.Tag

/-!
# A document with an element exchanged

If what follows the start of a document begins with the end tag of the element that is open, that element is
closed at once, and the rest of the document does not look into it.

**`Leaves.parse?_root`, `Leaves.parse?_child`**: so with other content at that place the document has that element
exchanged: the root, or a child of the root.
-/

namespace MailMerge.Xml

variable {head foot after : Text} {d : Doctype} {f r : Frame} {x y : Element}

/-! ## The end tag -/

/-- What is read after an end tag is one end of an element, and more. -/
theorem exists_tokens_of_stop {depth : Nat} {name : Text} (hname : isQualifiedName name) {l : Lexed}
    (h : lex (depth + 1) ('<' :: ('/' :: name ++ ['>']) ++ after) = some l) :
    ∃ ts, l.tokens = .stop name :: ts := by
  have hnext : next? ('<' :: ('/' :: name ++ ['>']) ++ after) = some ([.stop name], after) :=
    markup?_append (markup?_closing hname) after
  cases depth with
  | succ depth =>
    rw [lex_of_next? hnext rfl, Option.map_eq_some_iff] at h
    obtain ⟨more, -, rfl⟩ := h
    exact ⟨more.tokens, rfl⟩
  | zero =>
    rw [lex_of_closed hnext rfl] at h
    obtain rfl := Option.some.inj h
    exact ⟨[], rfl⟩

theorem ofTokens?_stop {es : Entities} {name : Text} {ts : List Token} {zs : List Event}
    (h : Event.ofTokens? d es (.stop name :: ts) = some zs) : ∃ more, zs = .stop name :: more := by
  rw [Event.ofTokens?, Option.map_eq_some_iff] at h
  obtain ⟨more, -, rfl⟩ := h
  exact ⟨more, rfl⟩

/-! ## Exchanged children -/

/-- Two open elements that are the same but for one child: it is the first one in one of them, and the second one
in the other. The children before it are given, in reverse. -/
inductive Frame.Twin (x y : Element) (before : List Element) : Frame → Frame → Prop
  | mk (label : Text) (scope : Scope) (name : Name) (attributes : List (Name × Text)) (text pending tail : Text)
      (rest : List Element) :
      Twin x y before
        { label, scope, name, attributes, text, pending, children := rest ++ x.withTail tail :: before }
        { label, scope, name, attributes, text, pending, children := rest ++ y.withTail tail :: before }

namespace Frame.Twin

variable {before : List Element} {g : Frame}

theorem label (h : Twin x y before f g) : g.label = f.label := by
  cases h with
  | mk => rfl

theorem scope (h : Twin x y before f g) : g.scope = f.scope := by
  cases h with
  | mk => rfl

theorem char (h : Twin x y before f g) (c : Char) :
    Twin x y before { f with pending := c :: f.pending } { g with pending := c :: g.pending } := by
  cases h with
  | mk => exact .mk ..

theorem child (h : Twin x y before f g) (e : Element) :
    Twin x y before { f with children := e :: f.children } { g with children := e :: g.children } := by
  cases h with
  | mk label scope name attributes text pending tail rest =>
    exact .mk label scope name attributes text pending tail (e :: rest)

theorem settle (h : Twin x y before f g) : Twin x y before f.settle g.settle := by
  cases h with
  | mk label scope name attributes text pending tail rest =>
    cases rest with
    | nil => exact .mk label scope name attributes text [] pending.reverse []
    | cons e rest => exact .mk label scope name attributes text [] tail (e.withTail pending.reverse :: rest)

theorem element (h : Twin x y before f g) : ∃ tail rest,
    f.element = .mk f.name f.attributes f.text (before.reverse ++ x.withTail tail :: rest) [] ∧
      g.element = .mk f.name f.attributes f.text (before.reverse ++ y.withTail tail :: rest) [] := by
  cases h with
  | mk label scope name attributes text pending tail rest =>
    cases rest with
    | nil => exact ⟨pending.reverse, [], by simp [Frame.element, Frame.settle, Element.withTail, Element.name,
        Element.attributes, Element.text, Element.children]⟩
    | cons e rest => exact ⟨tail, rest.reverse ++ [e.withTail pending.reverse], by simp [Frame.element, Frame.settle]⟩

end Frame.Twin

/-- The elements that two frames are closed to, as children of another one. -/
theorem Frame.twin_child (r f g : Frame) :
    Twin f.element g.element r.children { r with children := f.element :: r.children }
      { r with children := g.element :: r.children } :=
  .mk r.label r.scope r.name r.attributes r.text r.pending [] []

theorem Frame.attributes_settle (f : Frame) : f.settle.attributes = f.attributes := by
  unfold settle
  split <;> rfl

/-- Events that close the outermost element do not look into its children. -/
theorem build?_twin {before : List Element} {g : Frame} (h : Frame.Twin x y before f g) {inner : List Frame}
    {events : List Event} {e : Element} (he : build? (inner ++ [f]) events = some e) :
    ∃ text tail rest, e = .mk f.name f.attributes text (before.reverse ++ x.withTail tail :: rest) [] ∧
      build? (inner ++ [g]) events =
        some (.mk f.name f.attributes text (before.reverse ++ y.withTail tail :: rest) []) := by
  induction events generalizing inner f g with
  | nil =>
    cases inner with
    | nil => simp [build?] at he
    | cons i inner => simp [build?] at he
  | cons event events ih =>
    cases event with
    | char c =>
      cases inner with
      | nil =>
        have he : build? ([] ++ [{ f with pending := c :: f.pending }]) events = some e := he
        exact ih (h.char c) he
      | cons i inner =>
        have he : build? ({ i with pending := c :: i.pending } :: inner ++ [f]) events = some e := he
        exact ih h he
    | start label attributes =>
      cases inner with
      | nil =>
        rw [List.nil_append, build?] at he ⊢
        obtain ⟨k, hk, he⟩ := Option.bind_eq_some_iff.1 he
        have hk' : Frame.enter? g.scope label attributes = some k := h.scope ▸ hk
        have he : build? ([k] ++ [f.settle]) events = some e := he
        obtain ⟨text, tail, rest, rfl, hg⟩ := ih h.settle he
        rw [f.name_settle, f.attributes_settle] at hg ⊢
        refine ⟨text, tail, rest, rfl, ?_⟩
        simp only [List.head?_cons, Option.map_some, Option.getD_some, hk', Option.bind_eq_bind, Option.bind_some]
        exact hg
      | cons i inner =>
        rw [List.cons_append, build?] at he ⊢
        obtain ⟨k, hk, he⟩ := Option.bind_eq_some_iff.1 he
        have he : build? (k :: i.settle :: inner ++ [f]) events = some e := he
        obtain ⟨text, tail, rest, rfl, hg⟩ := ih h he
        refine ⟨text, tail, rest, rfl, ?_⟩
        simp only [List.head?_cons, Option.map_some, Option.getD_some] at hk ⊢
        simp only [hk, Option.bind_eq_bind, Option.bind_some]
        exact hg
    | stop label =>
      cases inner with
      | nil =>
        rw [List.nil_append, build?] at he ⊢
        split at he
        · cases he
        · next hlabel =>
          rw [if_neg (by rwa [h.label])]
          split at he
          · next hempty =>
            obtain rfl := Option.some.inj he
            obtain ⟨tail, rest, hf, hg⟩ := h.element
            exact ⟨f.text, tail, rest, hf, by rw [if_pos hempty, hg]⟩
          · cases he
      | cons i inner =>
        cases inner with
        | nil =>
          rw [List.cons_append, List.nil_append, build?] at he ⊢
          split at he
          · cases he
          · next hlabel =>
            rw [if_neg hlabel]
            have he : build? ([] ++ [{ f with children := i.element :: f.children }]) events = some e := he
            exact ih (h.child i.element) he
        | cons j inner =>
          rw [List.cons_append, List.cons_append, build?] at he ⊢
          split at he
          · cases he
          · next hlabel =>
            rw [if_neg hlabel]
            have he : build? ({ j with children := i.element :: j.children } :: inner ++ [f]) events = some e := he
            exact ih h he

/-! ## The exchange -/

section

variable {root : Element} {label : Text} {events : List Event}

/-- An end tag closes the root as it is. -/
theorem build?_root (h : build? [f] (.stop label :: events) = some root) :
    root = f.element ∧ ∀ g : Frame, g.label = f.label → build? [g] (.stop label :: events) = some g.element := by
  rw [build?] at h
  split at h
  · cases h
  · next hlabel =>
    split at h
    · next hempty =>
      refine ⟨(Option.some.inj h).symm, fun g hg => ?_⟩
      rw [build?, if_neg (by rwa [hg]), if_pos hempty]
    · cases h

/-- An end tag closes a child of the root as it is. -/
theorem build?_child (h : build? [f, r] (.stop label :: events) = some root) :
    ∃ text tail rest,
      root = .mk r.name r.attributes text (r.children.reverse ++ f.element.withTail tail :: rest) [] ∧
      ∀ g : Frame, g.label = f.label → build? [g, r] (.stop label :: events) =
        some (.mk r.name r.attributes text (r.children.reverse ++ g.element.withTail tail :: rest) []) := by
  have hlabel : ¬ label ≠ f.label := by
    intro hne
    rw [build?, if_pos hne] at h
    cases h
  have hclose : ∀ g : Frame, g.label = f.label → build? [g, r] (.stop label :: events) =
      build? ([] ++ [{ r with children := g.element :: r.children }]) events := by
    intro g hg
    rw [build?, if_neg (by rwa [hg])]
    rfl
  rw [hclose f rfl] at h
  obtain ⟨text, tail, rest, heq, -⟩ := build?_twin (r.twin_child f f) h
  refine ⟨text, tail, rest, heq, fun g hg => ?_⟩
  obtain ⟨text', tail', rest', heq', hexchanged⟩ := build?_twin (r.twin_child f g) h
  obtain ⟨-, -, rfl, hchildren, -⟩ := Element.mk.inj (heq.symm.trans heq')
  obtain ⟨htail, rfl⟩ := List.cons.inj (List.append_cancel_left hchildren)
  obtain ⟨-, -, -, -, rfl⟩ := Element.mk.inj htail
  rw [hclose g hg]
  exact hexchanged

end

namespace Leaves

section

variable {allowed : Text → Prop} {content : Text} {items : List Item} {root : Element}
  (hname : isQualifiedName f.label) (hfoot : foot = '<' :: ('/' :: f.label ++ ['>']) ++ after)
  (hcontent : Content d f.scope content items) (hallowed : allowed (content ++ foot))
  (hroot : parse? (head ++ content ++ foot) = some root)
include hname hfoot hcontent hallowed hroot

/-- With content at a place inside an element, the end tag after the place closes that element. -/
theorem parse?_closed {frames : List Frame} (h : Leaves head d (f :: frames) allowed) :
    ∃ zs, build? (f.addAll items :: frames) (.stop f.label :: zs) = some root ∧
      ∀ {inner items}, Content d f.scope inner items → allowed (inner ++ foot) →
        parse? (head ++ inner ++ foot) = build? (f.addAll items :: frames) (.stop f.label :: zs) := by
  have hhead : foot.head? = some '<' := by rw [hfoot]; rfl
  obtain ⟨depth, hparse⟩ := h.parse?_content hhead
  rw [hparse hcontent hallowed, Option.bind_eq_some_iff] at hroot
  obtain ⟨zs, hzs, hbuild⟩ := hroot
  obtain ⟨more, rfl⟩ : ∃ more, zs = .stop f.label :: more := by
    simp only [eventsAfter?, Option.bind_eq_bind, Option.bind_eq_some_iff] at hzs
    obtain ⟨l, hl, hzs⟩ := hzs
    have hreturn := return_not_mem_of_isQualifiedName hname
    rw [hfoot, withNewlines_append_left (by simp [hreturn])] at hl
    obtain ⟨ts, hts⟩ := exists_tokens_of_stop hname hl
    split at hzs
    · rw [hts] at hzs
      exact ofTokens?_stop hzs
    · cases hzs
  refine ⟨more, hbuild, fun {inner items} hinner hallowed => ?_⟩
  rw [hparse hinner hallowed, hzs, Option.bind_some]

/-- **With other content in it, the root of a document is exchanged.** -/
theorem parse?_root (h : Leaves head d [f] allowed) :
    root = (f.addAll items).element ∧ ∀ {inner items}, Content d f.scope inner items → allowed (inner ++ foot) →
      parse? (head ++ inner ++ foot) = some (f.addAll items).element := by
  obtain ⟨zs, hbuild, hparse⟩ := h.parse?_closed hname hfoot hcontent hallowed hroot
  obtain ⟨hsame, hexchanged⟩ := build?_root hbuild
  refine ⟨hsame, fun {inner items'} hinner hallowed => ?_⟩
  rw [hparse hinner hallowed]
  exact hexchanged _ ((f.addAll_label items').1.trans (f.addAll_label items).1.symm)

/-- **With other content in it, a child of the root is exchanged.** -/
theorem parse?_child (h : Leaves head d [f, r] allowed) :
    ∃ text tail rest, root = .mk r.name r.attributes text
        (r.children.reverse ++ (f.addAll items).element.withTail tail :: rest) [] ∧
      ∀ {inner items}, Content d f.scope inner items → allowed (inner ++ foot) →
        parse? (head ++ inner ++ foot) = some (.mk r.name r.attributes text
          (r.children.reverse ++ (f.addAll items).element.withTail tail :: rest) []) := by
  obtain ⟨zs, hbuild, hparse⟩ := h.parse?_closed hname hfoot hcontent hallowed hroot
  obtain ⟨text, tail, rest, hsame, hexchanged⟩ := build?_child hbuild
  refine ⟨text, tail, rest, hsame, fun {inner items'} hinner hallowed => ?_⟩
  rw [hparse hinner hallowed]
  exact hexchanged _ ((f.addAll_label items').1.trans (f.addAll_label items).1.symm)

end

end Leaves
end MailMerge.Xml
