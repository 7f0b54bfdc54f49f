import MailMerge.Docx.Package
import MailMerge.Proofs.Docx.Kept
import MailMerge.Proofs.Docx.RoundTrip
import MailMerge.Proofs.Xml.Exchanged
import MailMerge.Proofs.Xml.Filled

/-!
# A part that is written back

The blocks of a part are put between the first tag that looks like the start of its container and the last one
that looks like its end. The part is framed by what stands before and after this place if these tags are the
container's own.

**`IsOpenContainer.exists_parse?`**: if the content of the container is exchanged, all else in the part stays.

**`writePart_keeps_text`**: a framed part whose blocks keep their text is written back with all its text.
-/

namespace MailMerge.Docx

open Xml

/-! ## Containers -/

/-- The element without what is in it. -/
def hollowed (e : Element) : Element :=
  .mk e.name e.attributes [] [] e.tail

/-- The elements, the first one of a name without what is in it. -/
def hollowFirst (name : Name) : List Element → List Element
  | [] => []
  | e :: es => if e.name = name then hollowed e :: es else e :: hollowFirst name es

/-- The root of a part without what is in its container. -/
def hollow (root : Element) : Element :=
  if root.name = Tag.document then
    .mk root.name root.attributes root.text (hollowFirst Tag.body root.children) root.tail
  else hollowed root

/-- The first element of a name, where there is none before. -/
theorem hollowFirst_append {name : Name} {es more : List Element} {e : Element} (hes : ∀ c ∈ es, c.name ≠ name)
    (he : e.name = name) : hollowFirst name (es ++ e :: more) = es ++ hollowed e :: more := by
  induction es with
  | nil => rw [List.nil_append, hollowFirst, if_pos he]; rfl
  | cons c es ih =>
    rw [List.forall_mem_cons] at hes
    rw [List.cons_append, hollowFirst, if_neg hes.1, ih hes.2]
    rfl

/-- The first element of a name and what is around it. -/
theorem exists_of_find?_name {name : Name} {es : List Element} {e : Element}
    (h : es.find? (fun c => c.name = name) = some e) :
    ∃ before after, es = before ++ e :: after ∧ hollowFirst name es = before ++ hollowed e :: after ∧
      e.name = name ∧ ∀ c ∈ before, c.name ≠ name := by
  obtain ⟨he, before, after, rfl, hbefore⟩ := List.find?_eq_some_iff_append.1 h
  simp only [decide_eq_true_eq, Bool.not_eq_true', decide_eq_false_iff_not] at he hbefore
  exact ⟨before, after, rfl, hollowFirst_append hbefore he, he, hbefore⟩

/-- Two splits of a list at its first element of a name are the same. -/
theorem append_cons_inj_of_name {name : Name} {xs ys xs' ys' : List Element} {x y : Element}
    (h : xs ++ x :: ys = xs' ++ y :: ys') (hx : x.name = name) (hy : y.name = name)
    (hxs : ∀ c ∈ xs, c.name ≠ name) (hxs' : ∀ c ∈ xs', c.name ≠ name) : xs = xs' ∧ x = y ∧ ys = ys' := by
  induction xs generalizing xs' with
  | nil =>
    cases xs' with
    | nil =>
      obtain ⟨rfl, rfl⟩ := List.cons.inj h
      exact ⟨rfl, rfl, rfl⟩
    | cons c xs' =>
      obtain ⟨rfl, -⟩ := List.cons.inj h
      exact absurd hx (hxs' _ List.mem_cons_self)
  | cons c xs ih =>
    cases xs' with
    | nil =>
      obtain ⟨rfl, -⟩ := List.cons.inj h
      exact absurd hy (hxs _ List.mem_cons_self)
    | cons c' xs' =>
      obtain ⟨rfl, hrest⟩ := List.cons.inj h
      obtain ⟨rfl, rfl, rfl⟩ := ih hrest (fun c hc => hxs c (List.mem_cons_of_mem _ hc))
        fun c hc => hxs' c (List.mem_cons_of_mem _ hc)
      exact ⟨rfl, rfl, rfl⟩

theorem mem_all_of_container? {root c : Element} (h : container? root = some c) : c ∈ root.all := by
  unfold container? at h
  split at h
  · have hchild := List.mem_of_find?_eq_some h
    cases root with
    | mk name attributes text children tail =>
      rw [Element.all]
      exact List.mem_cons_of_mem _ (Element.mem_allOf.2 ⟨c, hchild, mem_all_self c⟩)
  · obtain rfl := Option.some.inj h
    exact mem_all_self root

theorem name_hollow (root : Element) : (hollow root).name = root.name := by
  unfold hollow
  split <;> rfl

theorem hollow_hollow (root : Element) : hollow (hollow root) = hollow root := by
  have hfirst : ∀ es, hollowFirst Tag.body (hollowFirst Tag.body es) = hollowFirst Tag.body es := by
    intro es
    induction es with
    | nil => rfl
    | cons e es ih =>
      rw [hollowFirst]
      split
      · next he => exact if_pos he
      · next he => rw [hollowFirst, if_neg he, ih]
  by_cases hroot : root.name = Tag.document
  · rw [hollow, name_hollow, if_pos hroot, hollow, if_pos hroot, Element.children, hfirst]
    rfl
  · rw [hollow, name_hollow, if_neg hroot, hollow, if_neg hroot]
    rfl

theorem name_of_container? {root c : Element} (h : container? root = some c) :
    c.name = if root.name = Tag.document then Tag.body else root.name := by
  unfold container? at h
  split at h
  · next hroot =>
    rw [if_pos hroot]
    have hfound := List.find?_some h
    simpa using hfound
  · next hroot =>
    rw [if_neg hroot, Option.some.inj h]

/-- Two parts have the same text if their containers have, and all else in them is the same. -/
theorem textIn_eq_of_hollow {root root' c c' : Element} (h : hollow root' = hollow root)
    (hc : container? root = some c) (hc' : container? root' = some c') (htext : textIn c' = textIn c) :
    textIn root' = textIn root := by
  have hname : root'.name = root.name := by rw [← name_hollow, h, name_hollow]
  by_cases hroot : root.name = Tag.document
  · have hroot' := hname.trans hroot
    rw [container?, if_pos hroot] at hc
    rw [container?, if_pos hroot'] at hc'
    obtain ⟨before, more, hchildren, hfirst, hcname, hbefore⟩ := exists_of_find?_name hc
    obtain ⟨before', more', hchildren', hfirst', hcname', hbefore'⟩ := exists_of_find?_name hc'
    have hsame := congrArg Element.children h
    rw [hollow, if_pos hroot', hollow, if_pos hroot, Element.children, Element.children, hfirst, hfirst'] at hsame
    obtain ⟨rfl, -, rfl⟩ := append_cons_inj_of_name hsame hcname' hcname hbefore' hbefore
    rw [textIn_of_hasOnlyInner (by rw [hroot']; decide), textIn_of_hasOnlyInner (by rw [hroot]; decide), hchildren,
      hchildren', List.flatMap_append, List.flatMap_append, List.flatMap_cons, List.flatMap_cons, htext]
  · rw [container?, if_neg hroot] at hc
    rw [container?, if_neg (by rwa [hname])] at hc'
    rwa [Option.some.inj hc, Option.some.inj hc']

/-! ## Open containers -/

theorem attributes_addAll (f : Frame) (items : List Item) : (f.addAll items).attributes = f.attributes := by
  induction items generalizing f with
  | nil => rfl
  | cons item items ih =>
    refine (ih (f.add item)).trans ?_
    cases item with
    | char c => rfl
    | element e => exact f.attributes_settle

theorem hollowed_element (f : Frame) (items : List Item) (tail : Text) :
    hollowed ((f.addAll items).element.withTail tail) = .mk f.name f.attributes [] [] tail := by
  have hattributes : (f.addAll items).element.attributes = f.attributes :=
    (Frame.attributes_settle _).trans (attributes_addAll f items)
  have hname : (f.addAll items).element.name = f.name := (name_element _).trans (name_addAll f items)
  rw [← hattributes, ← hname]
  rfl

/-- The container of a part is open: the root, or the first body in the root of a main part. -/
def IsOpenContainer (f : Frame) (frames : List Frame) : Prop :=
  frames = [] ∧ f.name ≠ Tag.document ∨
    ∃ r, frames = [r] ∧ r.name = Tag.document ∧ f.name = Tag.body ∧ ∀ c ∈ r.children, c.name ≠ Tag.body

/-- **With other content in its container a part is well-formed**, and all else in it is as it was. -/
theorem IsOpenContainer.exists_parse? {head foot content inner after : Text} {d : Doctype} {f : Frame}
    {frames : List Frame} {root : Element} {given items : List Item} {allowed : Text → Prop}
    (h : IsOpenContainer f frames) (hleaves : Leaves head d (f :: frames) allowed) (hname : isQualifiedName f.label)
    (hfoot : foot = '<' :: ('/' :: f.label ++ ['>']) ++ after) (hcontent : Content d f.scope content given)
    (hallowed : allowed (content ++ foot)) (hroot : parse? (head ++ content ++ foot) = some root)
    (hinner : Content d f.scope inner items) (hallowed' : allowed (inner ++ foot)) :
    ∃ root' tail, parse? (head ++ inner ++ foot) = some root' ∧ hollow root' = hollow root ∧
      container? root' = some ((f.addAll items).element.withTail tail) := by
  have hfname : ∀ items, (f.addAll items).element.name = f.name := fun items =>
    (name_element _).trans (name_addAll f items)
  rcases h with ⟨rfl, hnot⟩ | ⟨r, rfl, hr, hbody, hfirst⟩
  · -- The container is the root.
    obtain ⟨rfl, hfilled⟩ := hleaves.parse?_root hname hfoot hcontent hallowed hroot
    have hnot : ∀ items, (f.addAll items).element.name ≠ Tag.document := fun items => (hfname items).trans_ne hnot
    refine ⟨_, [], hfilled hinner hallowed', ?_, if_neg (hnot items)⟩
    rw [hollow, if_neg (hnot _), hollow, if_neg (hnot _)]
    exact (hollowed_element f items []).trans (hollowed_element f given []).symm
  · -- The container is the first body in the root.
    obtain ⟨text, tail, rest, rfl, hfilled⟩ := hleaves.parse?_child hname hfoot hcontent hallowed hroot
    have hbefore : ∀ c ∈ r.children.reverse, c.name ≠ Tag.body := fun c hc => hfirst c (List.mem_reverse.1 hc)
    have hbody : ∀ items, ((f.addAll items).element.withTail tail).name = Tag.body := fun items =>
      (hfname items).trans hbody
    have hhollow : ∀ items, hollow (.mk r.name r.attributes text
        (r.children.reverse ++ (f.addAll items).element.withTail tail :: rest) []) =
          .mk r.name r.attributes text (r.children.reverse ++ .mk f.name f.attributes [] [] tail :: rest) [] := by
      intro items
      rw [hollow, Element.name, if_pos hr, Element.children, hollowFirst_append hbefore (hbody items),
        hollowed_element]
      rfl
    refine ⟨_, tail, hfilled hinner hallowed', by rw [hhollow, hhollow], ?_⟩
    have hnone : r.children.reverse.find? (fun c => c.name = Tag.body) = none :=
      List.find?_eq_none.2 fun c hc => by simpa using hbefore c hc
    rw [container?, Element.name, if_pos hr, Element.child?, Element.children, List.find?_append, hnone,
      List.find?_cons_of_pos (by simpa using hbody items)]
    rfl

/-- The names of the roots of page headers and page footers. -/
def rootNames : List Name := [tag "hdr", tag "ftr"]

/-- The open elements are the container of a part and its parents, with nothing in the container yet: the root of
a page header or a page footer, or the first body in the root of a main part. -/
structure IsContainer (f : Frame) (frames : List Frame) : Prop where
  label : f.label = "w:".toList ++ f.name.base
  place : frames = [] ∧ f.name ∈ rootNames ∨
    ∃ r, frames = [r] ∧ r.name = Tag.document ∧ f.name = Tag.body ∧ ∀ c ∈ r.children, c.name ≠ Tag.body
  fresh : f.text = [] ∧ f.children = [] ∧ f.pending = []

theorem hasOnlyInner_of_mem_rootNames {name : Name} (h : name ∈ rootNames) : HasOnlyInner name := by
  revert name
  decide

theorem isName_of_isContainer {f : Frame} {frames : List Frame} (h : IsContainer f frames) :
    isQualifiedName f.label := by
  have hnames : ∀ n ∈ Tag.body :: rootNames, isQualifiedName ("w:".toList ++ n.base) := by
    decide
  rw [h.label]
  refine hnames f.name ?_
  rcases h.place with ⟨-, hname⟩ | ⟨r, -, -, hname, -⟩
  · exact List.mem_cons_of_mem _ hname
  · exact List.mem_cons.2 (.inl hname)

theorem IsContainer.isOpenContainer {f : Frame} {frames : List Frame} (h : IsContainer f frames) :
    IsOpenContainer f frames := by
  rcases h.place with ⟨hframes, hname⟩ | hplace
  · refine .inl ⟨hframes, ?_⟩
    rintro he
    rw [he] at hname
    revert hname
    decide
  · exact .inr hplace

theorem IsContainer.hasOnlyInner {f : Frame} {frames : List Frame} (h : IsContainer f frames) :
    HasOnlyInner f.name := by
  rcases h.place with ⟨-, hname⟩ | ⟨r, -, -, hbody, -⟩
  · exact hasOnlyInner_of_mem_rootNames hname
  · rw [hbody]
    decide

/-! ## Framed parts -/

/-- The part is framed: its blocks are put between `head` and `foot`, and these hold the part without what is in
its container. In the container the declarations of the root are in force, and no element gets further
attributes. -/
structure Framed (xml : Text) (root : Element) (head foot : Text) (d : Doctype) (f : Frame)
    (frames : List Frame) : Prop where
  parse : parse? xml = some root
  splice : ∀ inner, Docx.splice xml inner = .ok (head ++ inner ++ foot)
  opened : opened? head = some (d, f :: frames)
  closed : ∃ after, foot = '<' :: ('/' :: f.label ++ ['>']) ++ after
  container : IsContainer f frames
  hollow : parse? (head ++ foot) = some (Docx.hollow root)
  rules : d.rules = [] ∧ ∀ d' after, prolog? (normalized xml) = some (d', after) → d'.rules = []
  declared : ∀ e ∈ Declarations.ofDocument xml, e.InForce f.scope
  markup : f.scope.lookup ['w'] = some markupSpace
  unlabelled : f.scope.lookup [] ≠ some markupSpace

namespace Framed

variable {xml head foot inner s : Text} {root c : Element} {d : Doctype} {f : Frame} {frames : List Frame}
  {labels : Labels}

theorem carries (h : Framed xml root head foot d f frames) (hlabels : RegisterIsSound labels) :
    (Labelling.ofPart labels xml).Carries d f.scope := by
  have hforce := inForce_ofPart h.opened h.rules.1 hlabels h.declared
  exact ⟨hforce, ⟨h.rules.1, h.markup, hforce.sound.xml⟩, h.unlabelled⟩

theorem textIn_filled (hname : HasOnlyInner f.name) (hfresh : f.children = []) (items : List Item) :
    textIn (f.addAll items).element = items.flatMap itemText := by
  rw [textIn_element (by rwa [name_addAll]), frameText_addAll, frameText, hfresh]
  rfl

/-- **With the text of its container in its place, a part has all its text.** -/
theorem exists_parse? (h : Framed xml root head foot d f frames) (hc : container? root = some c)
    (hinner : Carries d f.scope inner (c.children.flatMap textIn)) :
    ∃ root', parse? (head ++ inner ++ foot) = some root' ∧ textIn root' = textIn root := by
  obtain ⟨⟨items, hitems, htext⟩, htagged⟩ := hinner
  obtain ⟨after, hfoot⟩ := h.closed
  have hhead : foot.head? = some '<' := by rw [hfoot]; rfl
  obtain ⟨root', tail, hparse, hhollow, hc'⟩ := h.container.isOpenContainer.exists_parse? (leaves_of_opened h.opened)
    (isName_of_isContainer h.container) hfoot .nil hhead (by rw [List.append_nil, h.hollow]) hitems
    (htagged.head?_append hhead)
  rw [hollow_hollow] at hhollow
  refine ⟨root', hparse, textIn_eq_of_hollow hhollow hc hc' ?_⟩
  have hname : c.name = f.name := by
    rw [name_of_container? hc, ← name_hollow, ← hhollow, name_hollow, ← name_of_container? hc']
    exact (name_element _).trans (name_addAll f items)
  have honly := h.container.hasOnlyInner
  rw [textIn_withTail, textIn_filled honly h.container.fresh.2.1, htext, textIn_of_hasOnlyInner (by rwa [hname])]

end Framed

/-! ## New main parts -/

/-- The root of a new main part. -/
def rootFrame : Frame :=
  { label := "w:document", scope := rootScope, name := Tag.document, attributes := [] }

/-- The body of a new main part. -/
def bodyFrame : Frame :=
  { label := "w:body", scope := rootScope, name := Tag.body, attributes := [] }

/-- A new main part is framed, if nothing in its body is taken for its tags or for a declaration. -/
theorem framed_mainPartWith {inner : Text} {root : Element}
    (hliteral : literalElement? (mainPartWith inner) = some root)
    (hhollow : hollow root = markupElement markupSpace "document" [markupElement markupSpace "body" []])
    (htags : (FoundTag.find? [bodyLabel] (mainPartWith inner)).any fun tag =>
      tag.before ++ tag.text = mainPartHead ∧ fromLast tag.closing (mainPartWith inner) = mainPartFoot)
    (hdeclared : Declarations.ofDocument (mainPartWith inner) = [{ label := "w", space := escapeValue markupSpace }]) :
    Framed (mainPartWith inner) root mainPartHead mainPartFoot { standsAlone := true } bodyFrame [rootFrame] where
  parse := parse?_of_literal hliteral
  splice := splice_of_find? htags
  opened := opened?_of_literal (by decide +kernel)
  closed := ⟨"</w:document>", rfl⟩
  container := ⟨by decide, .inr ⟨rootFrame, rfl, rfl, rfl, List.forall_mem_nil _⟩, rfl, rfl, rfl⟩
  hollow := by rw [← List.append_nil mainPartHead, ← mainPartWith_eq, parse?_mainPartWith .nil, hhollow]
  rules := ⟨rfl, fun _ _ => rules_of_literal hliteral⟩
  declared := by
    rw [hdeclared, List.forall_mem_singleton]
    exact Declaration.inForce_escapeValue rfl (by decide +kernel) (by decide) (by decide +kernel)
  markup := by decide
  unlabelled := by decide

/-! ## Writing a part -/

/-- **A part is written back with all its text**, if it is framed and its blocks keep their text. -/
theorem writePart_keeps_text {t : Template} {part : Part} {labels : Labels} {xml head foot : Text} {root : Element}
    {d : Doctype} {f : Frame} {frames : List Frame} (h : Framed xml root head foot d f frames)
    (hlabels : RegisterIsSound labels) (hsource : t.sources.lookup part.name = some xml)
    (hread : readPart (Labelling.ofPart labels xml) part.name xml = .ok part) (hreturn : HasNoReturn root)
    (hkeeps : ∀ c ∈ container? root, keepsAll (Labelling.ofPart labels xml) none c.children) :
    ∃ written root', t.writePart part = .ok written ∧ parse? written = some root' ∧ textIn root' = textIn root := by
  have hclean : Clean root := ⟨parse?_sound h.parse h.rules.2, hreturn⟩
  rw [readPart, h.parse] at hread
  dsimp only [Option.elim_some, bind, Except.bind] at hread
  cases hc : container? root with
  | none =>
    rw [hc] at hread
    cases hread
  | some c =>
    rw [hc] at hread
    have hnodes : part.nodes = blocks (Labelling.ofPart labels xml) none c.children :=
      congrArg Part.nodes (Except.ok.inj hread).symm
    have hchildren := (hclean.of_mem_all (mem_all_of_container? hc)).children
    obtain ⟨inner, hwrite, hinner⟩ := carries_blocks (h.carries hlabels) hchildren (hkeeps c hc)
    obtain ⟨root', hparse, htext⟩ := h.exists_parse? hc hinner
    refine ⟨_, root', ?_, hparse, htext⟩
    rw [Template.writePart, hsource, hnodes, hwrite]
    exact h.splice inner

/-- The blocks of a letter: a paragraph with a tab stop, a link and deleted text, a box with text in a content
control, and a table. -/
def letterBody : Text :=
  element ['p']
      (element "pPr" (element "tabs" "<w:tab/>")
        ++ element ['r'] (element "rPr" "<w:b/>" ++ element ['t'] "Dear" ++ "<w:tab/>".toList)
        ++ element "hyperlink" (element ['r'] (element ['t'] "Ann"))
        ++ element "del" (element ['r'] (element "delText" "Bob")))
    ++ element "sdt" (element "sdtContent" (element ['p'] (element ['r'] (element "pict" (element ['t'] "box")))))
    ++ element "tbl" (element "tr" (element "tc" (element ['p'] (element ['r']
        (element ['t'] "one" ++ "<w:br/>".toList ++ element ['t'] "two")))))

/-- The text of the letter. -/
def letterText : Text :=
  "\tDear\tAnnboxone\ntwo"

/-- The letter, as the main part of a package. -/
def letter : Text :=
  mainPartWith letterBody

/-- **A letter is written back with all its text.** -/
theorem writePart_keeps_text_letter :
    ∃ root part, parse? letter = some root ∧
      readPart (Labelling.ofPart Labels.standard letter) mainPart letter = .ok part ∧ textIn root = letterText ∧
      ∃ written root', ({ package := [], sources := [(mainPart, letter)], document := { parts := [part] } } :
        Template).writePart part = .ok written ∧ parse? written = some root' ∧ textIn root' = textIn root := by
  have hletter : (literalElement? letter).any fun root =>
      hollow root = markupElement markupSpace "document" [markupElement markupSpace "body" []] ∧
      textIn root = letterText ∧
      (∀ e ∈ root.all, e.name = Tag.text → '\r' ∉ e.text) ∧
      (∀ c ∈ container? root, keepsAll (Labelling.ofPart Labels.standard letter) none c.children) ∧
      (container? root).isSome := by
    decide +kernel
  obtain ⟨root, hliteral, hroot⟩ := (Option.any_eq_true _ _).1 hletter
  obtain ⟨hhollow, htext, hreturn, hkeeps, hcontainer⟩ := of_decide_eq_true hroot
  have hparse := parse?_of_literal hliteral
  obtain ⟨c, hc⟩ := Option.isSome_iff_exists.1 hcontainer
  have hread : ∀ l, readPart l mainPart letter = .ok { name := mainPart, nodes := blocks l none c.children } := by
    intro l
    rw [readPart, hparse]
    dsimp only [Option.elim_some, bind, Except.bind]
    rw [hc]
    rfl
  have hframed := framed_mainPartWith hliteral hhollow (by decide +kernel) (by decide +kernel)
  exact ⟨root, _, hparse, hread _, htext,
    writePart_keeps_text hframed registerIsSound_standard List.lookup_cons_self (hread _) hreturn hkeeps⟩

end MailMerge.Docx
