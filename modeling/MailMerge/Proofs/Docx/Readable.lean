import MailMerge.Docx.Merge
import MailMerge.Proofs.Docx.Fitting
import MailMerge.Proofs.Docx.Framed
import MailMerge.Proofs.Merge.Carried

/-!
# Packages that can be read again

A part has a slot if its blocks are put where elements are left open, and nothing else is put there. Whatever
fits into the slot leaves the part readable. The blocks of a merged document fit if all characters of its texts
are legal: values may hold any characters, and those that XML has no place for are written as they are.

**`IsSlot.isReadable_iff`**: a part is readable with a text in its slot if the text fits, and only then.

**`read_merge_iff`**: a package that is merged can be read again if the merged texts are legal, and only then.
-/

namespace MailMerge.Docx

open Xml

variable {xml head foot inner : Text} {d : Doctype} {f : Frame} {frames : List Frame} {labels : Labels}

/-! ## Readable parts -/

/-- The text can be read as a part. -/
def IsReadable (xml : Text) : Prop :=
  (parse? xml).any fun root => (container? root).isSome

theorem not_exists_of_error {α ε : Type} {e : ε} : ¬ ∃ x : α, Except.error e = Except.ok x := by
  rintro ⟨x, h⟩
  cases h

theorem exists_readPart_iff {l : Labelling} {name : Text} :
    (∃ part, readPart l name xml = .ok part) ↔ IsReadable xml := by
  rw [readPart, IsReadable]
  cases parse? xml with
  | none => exact iff_of_false not_exists_of_error Bool.false_ne_true
  | some root =>
    dsimp only [Option.elim_some, Option.any_some, bind, Except.bind]
    cases container? root with
    | none => exact iff_of_false not_exists_of_error Bool.false_ne_true
    | some c => exact iff_of_true ⟨_, rfl⟩ rfl

/-- A root that has grown has a container if it had one. -/
theorem container?_grown {e e' : Element} (h : Element.Grown e e') (hc : (container? e).isSome) :
    (container? e').isSome := by
  unfold container? at hc ⊢
  rw [h.name]
  split at hc
  · next hname =>
    rw [if_pos hname]
    obtain ⟨c, hc⟩ := Option.isSome_iff_exists.1 hc
    have hcname : c.name = Tag.body := by
      have := List.find?_some hc
      simpa using this
    obtain ⟨c', hc', hname'⟩ := h.children c (List.mem_of_find?_eq_some hc)
    exact List.find?_isSome.2 ⟨c', hc', by simpa using hname'.trans hcname⟩
  · next hname =>
    rw [if_neg hname]
    rfl

/-! ## Slots -/

/-- The part has a slot between `head` and `foot`. In the slot there are open elements, markup has its label, the
declarations of the root are in force, and no element gets further attributes. -/
structure IsSlot (xml head foot : Text) (d : Doctype) (f : Frame) (frames : List Frame) : Prop where
  splice : ∀ inner, Docx.splice xml inner = .ok (head ++ inner ++ foot)
  opened : opened? head = some (d, f :: frames)
  closed : foot.head? = some '<'
  emptied : IsReadable (head ++ foot)
  rules : d.rules = [] ∧ ∀ d' after, prolog? (normalized xml) = some (d', after) → d'.rules = []
  declared : ∀ e ∈ Declarations.ofDocument xml, e.InForce f.scope
  labelled : (f.scope.lookup ['w']).isSome

theorem container?_hollow {root : Element} (hc : (container? root).isSome) :
    (container? (hollow root)).isSome := by
  unfold container? at hc
  unfold hollow
  split at hc
  · next hname =>
    obtain ⟨c, hc⟩ := Option.isSome_iff_exists.1 hc
    obtain ⟨before, after, -, hfirst, hcname, -⟩ := exists_of_find?_name hc
    rw [if_pos hname, container?, Element.name, if_pos hname]
    refine List.find?_isSome.2 ⟨hollowed c, ?_, decide_eq_true hcname⟩
    rw [Element.children, hfirst]
    exact List.mem_append_right before List.mem_cons_self
  · next hname =>
    rw [if_neg hname, container?, hollowed, Element.name, if_neg hname]
    rfl

/-- A framed part has a slot. -/
theorem Framed.isSlot {root : Element} (h : Framed xml root head foot d f frames)
    (hc : (container? root).isSome) : IsSlot xml head foot d f frames where
  splice := h.splice
  opened := h.opened
  closed := by
    obtain ⟨after, rfl⟩ := h.closed
    rfl
  emptied := by
    rw [IsReadable, h.hollow, Option.any_some]
    exact container?_hollow hc
  rules := h.rules
  declared := h.declared
  labelled := by
    rw [h.markup]
    rfl

namespace IsSlot

theorem takesMarkup (h : IsSlot xml head foot d f frames) : ∃ space, TakesMarkup d f.scope space := by
  obtain ⟨space, hspace⟩ := Option.isSome_iff_exists.1 h.labelled
  exact ⟨space, h.rules.1, hspace, (opened?_sound h.opened h.rules.1 f List.mem_cons_self).scope.xml⟩

/-- **A part is readable with a text in its slot if the text fits**, and only then. -/
theorem isReadable_iff {P : Prop} (h : IsSlot xml head foot d f frames) (hinner : FitsIff d f.scope P inner) :
    IsReadable (head ++ inner ++ foot) ↔ P := by
  refine ⟨fun hreadable => ?_, fun hp => ?_⟩
  · by_contra hp
    rw [IsReadable, (leaves_of_opened h.opened).parse?_of_refused (hinner.refused hp)
      (hinner.tagged.head?_append h.closed) h.closed] at hreadable
    cases hreadable
  · obtain ⟨root, hroot, hc⟩ := (Option.any_eq_true _ _).1 h.emptied
    obtain ⟨items, hitems⟩ := (hinner.fits hp).content
    obtain ⟨root', hroot', hgrown⟩ := parse?_filled h.opened hitems hinner.tagged h.closed hroot
    rw [IsReadable, hroot', Option.any_some]
    exact container?_grown hgrown hc

end IsSlot

/-- The part has a slot. -/
def HasSlot (xml : Text) : Prop :=
  ∃ head foot d f frames, IsSlot xml head foot d f frames

/-- The part has a slot into which all fits that the nodes carry. -/
def Takes (xml : Text) (nodes : List Node) : Prop :=
  ∃ head foot d f frames, IsSlot xml head foot d f frames ∧ ∀ n ∈ nodes, n.Carries (Fits d f.scope)

/-! ## Reading parts -/

/-- A part takes what is read from it. -/
theorem takes_of_readPart {name : Text} {part : Part} (hslot : HasSlot xml) (hlabels : RegisterIsSound labels)
    (h : readPart (Labelling.ofPart labels xml) name xml = .ok part) :
    part.name = name ∧ Takes xml part.nodes ∧ RegisterIsSound (Labelling.ofPart labels xml).labels := by
  obtain ⟨head, foot, d, f, frames, hslot⟩ := hslot
  have hforce := inForce_ofPart hslot.opened hslot.rules.1 hlabels hslot.declared
  rw [readPart] at h
  cases hroot : parse? xml with
  | none =>
    rw [hroot] at h
    cases h
  | some root =>
    rw [hroot] at h
    dsimp only [Option.elim_some, bind, Except.bind] at h
    cases hc : container? root with
    | none =>
      rw [hc] at h
      cases h
    | some c =>
      rw [hc] at h
      obtain rfl := Except.ok.inj h
      have hsound := ((parse?_sound hroot hslot.rules.2).of_mem_all (mem_all_of_container? hc)).children
      exact ⟨rfl, ⟨head, foot, d, f, frames, hslot,
        carries_fits_blocks hforce hslot.rules.1 none c.children hsound⟩, hforce.register⟩

/-- **Parts take what is read from them**: each has its name, and its XML is the content of the member of this
name. -/
theorem takes_of_readParts {p : Package} {names : List Text} {parts : List (Text × Part)}
    (h : Template.readParts p labels names = .ok parts) (hlabels : RegisterIsSound labels)
    (hslots : ∀ e ∈ parts, HasSlot e.1) :
    parts.map (·.2.name) = names ∧
      ∀ e ∈ parts, Text.ofBytes? ((p.content? e.2.name).getD .empty) = some e.1 ∧ Takes e.1 e.2.nodes := by
  induction names generalizing labels parts with
  | nil =>
    obtain rfl := Except.ok.inj h
    exact ⟨rfl, List.forall_mem_nil _⟩
  | cons name names ih =>
    rw [Template.readParts] at h
    dsimp only at h
    cases hxml : Text.ofBytes? ((p.content? name).getD .empty) with
    | none =>
      rw [hxml] at h
      cases h
    | some xml =>
      rw [hxml] at h
      dsimp only [Option.elim_some, bind, Except.bind] at h
      cases hpart : readPart (Labelling.ofPart labels xml) name xml with
      | error e =>
        rw [hpart] at h
        cases h
      | ok part =>
        rw [hpart] at h
        dsimp only at h
        cases hrest : Template.readParts p (Labelling.ofPart labels xml).labels names with
        | error e =>
          rw [hrest] at h
          cases h
        | ok rest =>
          rw [hrest] at h
          obtain rfl := Except.ok.inj h
          rw [List.forall_mem_cons] at hslots
          obtain ⟨hname, htakes, hregister⟩ := takes_of_readPart hslots.1 hlabels hpart
          obtain ⟨hnames, hall⟩ := ih hrest hregister hslots.2
          refine ⟨by rw [List.map_cons, hname, hnames], List.forall_mem_cons.2 ⟨⟨?_, htakes⟩, hall⟩⟩
          rwa [hname]

/-- The member of the name is a readable part. -/
def HasReadable (p : Package) (name : Text) : Prop :=
  ∃ xml, Text.ofBytes? ((p.content? name).getD .empty) = some xml ∧ IsReadable xml

/-- **Parts are read if their members are readable**, and only then. -/
theorem exists_readParts_iff {p : Package} {names : List Text} :
    (∃ parts, Template.readParts p labels names = .ok parts) ↔ ∀ name ∈ names, HasReadable p name := by
  induction names generalizing labels with
  | nil => exact iff_of_true ⟨[], rfl⟩ (List.forall_mem_nil _)
  | cons name names ih =>
    rw [List.forall_mem_cons, Template.readParts, HasReadable]
    dsimp only
    cases Text.ofBytes? ((p.content? name).getD .empty) with
    | none =>
      refine iff_of_false not_exists_of_error fun h => ?_
      obtain ⟨xml, hxml, -⟩ := h.1
      cases hxml
    | some xml =>
      dsimp only [Option.elim_some, bind, Except.bind]
      simp only [Option.some.injEq, exists_eq_left']
      rw [← @exists_readPart_iff xml (Labelling.ofPart labels xml) name, ← @ih (Labelling.ofPart labels xml).labels]
      cases readPart (Labelling.ofPart labels xml) name xml with
      | error e => exact iff_of_false not_exists_of_error fun h => not_exists_of_error h.1
      | ok part =>
        dsimp only
        cases Template.readParts p (Labelling.ofPart labels xml).labels names with
        | error e => exact iff_of_false not_exists_of_error fun h => not_exists_of_error h.2
        | ok parts => exact iff_of_true ⟨_, rfl⟩ ⟨⟨part, rfl⟩, ⟨parts, rfl⟩⟩

/-- **A package is read if it has a main part and all its parts are readable**, and only then. -/
theorem exists_read_iff {p : Package} :
    (∃ t, Template.read p = .ok t) ↔
      (p.content? mainPart).isSome ∧ ∀ name ∈ p.partNames, HasReadable p name := by
  rw [Template.read, ← @exists_readParts_iff Labels.standard]
  cases p.content? mainPart with
  | none => exact iff_of_false not_exists_of_error fun h => Bool.false_ne_true h.1
  | some content =>
    cases Template.readParts p Labels.standard p.partNames with
    | error e => exact iff_of_false not_exists_of_error fun h => not_exists_of_error h.2
    | ok parts => exact iff_of_true ⟨_, rfl⟩ ⟨rfl, parts, rfl⟩

/-! ## Writing parts -/

/-- **A part that takes the nodes is written readable if their texts are legal**, and only then. -/
theorem isReadable_iff_of_writePart {t : Template} {part : Part} {written : Text}
    (hsource : t.sources.lookup part.name = some xml) (htakes : Takes xml part.nodes)
    (h : t.writePart part = .ok written) :
    IsReadable written ↔ AllLegal (Node.placedParagraphs part.nodes) := by
  obtain ⟨head, foot, d, f, frames, hslot, hcarries⟩ := htakes
  obtain ⟨space, hm⟩ := hslot.takesMarkup
  rw [Template.writePart, hsource] at h
  cases hinner : writeBlocks part.nodes with
  | error e =>
    rw [hinner] at h
    cases h
  | ok inner =>
    rw [hinner] at h
    obtain rfl := Except.ok.inj ((hslot.splice inner).symm.trans h)
    exact hslot.isReadable_iff (fitsIff_writeBlocks hm part.nodes [] 0 inner hcarries hinner)

/-! ## Packages -/

theorem mem_partNames {p : Package} {name : Text} (hmain : (p.content? mainPart).isSome)
    (h : name ∈ p.partNames) : name ∈ p.map (·.name) := by
  rcases List.mem_cons.1 h with rfl | h
  · obtain ⟨content, hcontent⟩ := Option.isSome_iff_exists.1 hmain
    obtain ⟨m, hm, -⟩ := Option.map_eq_some_iff.1 hcontent
    obtain ⟨hmem, hname⟩ := List.mem_filter.1 (List.mem_of_getLast? hm)
    exact List.mem_map.2 ⟨m, hmem, of_decide_eq_true hname⟩
  · rw [List.mem_mergeSort, List.mem_eraseDups] at h
    exact (List.mem_filter.1 h).1

theorem nodup_eraseDups {α : Type} [BEq α] [LawfulBEq α] (xs : List α) : xs.eraseDups.Nodup := by
  induction hn : xs.length using Nat.strongRecOn generalizing xs with
  | ind n ih =>
    cases xs with
    | nil => exact List.nodup_nil
    | cons x xs =>
      rw [List.eraseDups_cons, List.nodup_cons, List.mem_eraseDups]
      have hlt : (xs.filter fun y => !y == x).length < n :=
        hn ▸ Nat.lt_succ_of_le (List.length_filter_le _ xs)
      exact ⟨by simp, ih _ hlt _ rfl⟩

/-- No two parts have one name. -/
theorem nodup_partNames (p : Package) : p.partNames.Nodup := by
  rw [Package.partNames, List.nodup_cons, List.mem_mergeSort, List.mem_eraseDups]
  refine ⟨by simp, (List.mergeSort_perm _ _).nodup_iff.2 (nodup_eraseDups _)⟩

/-- The content of a name is that of a member. -/
theorem exists_content? {p : Package} {name : Text} (hname : name ∈ p.map (·.name)) :
    ∃ m ∈ p, m.name = name ∧ p.content? name = some m.content := by
  obtain ⟨m, hm, hmname⟩ := List.mem_map.1 hname
  have hne : p.filter (fun m => m.name = name) ≠ [] :=
    List.ne_nil_of_mem (List.mem_filter.2 ⟨hm, by simpa using hmname⟩)
  obtain ⟨last, hlast⟩ : ∃ last, (p.filter fun m => m.name = name).getLast? = some last :=
    ⟨_, List.getLast?_eq_some_getLast hne⟩
  obtain ⟨hmem, hlastname⟩ := List.mem_filter.1 (List.mem_of_getLast? hlast)
  exact ⟨last, hmem, of_decide_eq_true hlastname, by rw [Package.content?, hlast]; rfl⟩

/-- A member is written with its name. -/
theorem name_of_writeMember {t : Template} {m m' : Member} (h : t.writeMember m = .ok m') : m'.name = m.name := by
  unfold Template.writeMember at h
  split at h
  · next part hfind =>
    cases hwrite : t.writePart part with
    | error e =>
      rw [hwrite] at h
      cases h
    | ok written =>
      rw [hwrite] at h
      obtain rfl := Except.ok.inj h
      rfl
  · obtain rfl := Except.ok.inj h
    rfl

theorem exists_mapM {α β ε : Type} {f : α → Except ε β} {xs : List α} (h : ∀ x ∈ xs, ∃ y, f x = .ok y) :
    ∃ ys, xs.mapM f = .ok ys := by
  induction xs with
  | nil => exact ⟨[], rfl⟩
  | cons x xs ih =>
    rw [List.forall_mem_cons] at h
    obtain ⟨⟨y, hy⟩, hrest⟩ := h
    obtain ⟨ys, hys⟩ := ih hrest
    rw [List.mapM_cons, hy]
    dsimp only [bind, Except.bind]
    rw [hys]
    exact ⟨_, rfl⟩

/-- A package is written if each part of the document is. -/
theorem exists_write {t : Template}
    (h : ∀ part ∈ t.document.parts, ∃ written, t.writePart part = .ok written) :
    ∃ package, t.write = .ok package := by
  refine exists_mapM fun m _ => ?_
  unfold Template.writeMember
  split
  · next part hfind =>
    obtain ⟨written, hwritten⟩ := h part (List.mem_of_find?_eq_some hfind)
    rw [hwritten]
    exact ⟨_, rfl⟩
  · exact ⟨_, rfl⟩

theorem forall₂_of_mapM {α β ε : Type} {f : α → Except ε β} {xs : List α} {ys : List β}
    (h : xs.mapM f = .ok ys) : List.Forall₂ (fun x y => f x = .ok y) xs ys := by
  induction xs generalizing ys with
  | nil =>
    obtain rfl := Except.ok.inj h
    exact .nil
  | cons x xs ih =>
    rw [List.mapM_cons] at h
    cases hx : f x with
    | error e =>
      rw [hx] at h
      cases h
    | ok y =>
      rw [hx] at h
      cases hxs : xs.mapM f with
      | error e =>
        rw [hxs] at h
        cases h
      | ok rest =>
        rw [hxs] at h
        obtain rfl := Except.ok.inj h
        exact .cons hx (ih hxs)

/-- The members of a package that is written have the names of before. -/
theorem map_name_of_write {t : Template} {package : Package} (h : t.write = .ok package) :
    package.map (·.name) = t.package.map (·.name) :=
  Merging.map_eq_of_forall₂ (forall₂_of_mapM h) fun _ _ => name_of_writeMember

/-- **A part is written into the member of its name**, if no other part has this name. -/
theorem content?_of_write {t : Template} {package : Package} (h : t.write = .ok package)
    (hnames : (t.document.parts.map (·.name)).Nodup) {part : Part} (hpart : part ∈ t.document.parts)
    (hmember : part.name ∈ t.package.map (·.name)) :
    ∃ written, t.writePart part = .ok written ∧ package.content? part.name = some (Text.toBytes written) := by
  rw [← map_name_of_write h] at hmember
  obtain ⟨m, hm, hname, hcontent⟩ := exists_content? hmember
  obtain ⟨m', -, hwrite⟩ := Merging.exists_of_forall₂ (forall₂_of_mapM h).flip hm
  have hsame := name_of_writeMember hwrite
  rw [hcontent]
  unfold Template.writeMember at hwrite
  split at hwrite
  · next part' hfind =>
    have hfound := List.find?_some hfind
    rw [decide_eq_true_eq] at hfound
    obtain rfl : part' = part := List.inj_on_of_nodup_map hnames (List.mem_of_find?_eq_some hfind) hpart
      (hfound.trans (hsame.symm.trans hname))
    cases hwritten : t.writePart part' with
    | error e =>
      rw [hwritten] at hwrite
      cases hwrite
    | ok written =>
      rw [hwritten] at hwrite
      obtain rfl := Except.ok.inj hwrite
      exact ⟨written, rfl, rfl⟩
  · next hfind =>
    have hnone := List.find?_eq_none.1 hfind part hpart
    exact absurd (hname.symm.trans hsame) (by simpa using hnone)

/-! ## Merged packages -/

/-- What is merged and written if a package is merged. -/
theorem exists_of_merge {answers : Text → Source.Response} {settings : Settings} {data : MergeData} {p : Package}
    {t : Template} {outcome : Outcome} (hread : Template.read p = .ok t)
    (h : merge answers settings data p = .ok outcome) :
    ∃ c, t.document.merge settings c = .ok outcome.merged ∧
      ({ t with document := outcome.merged.document } : Template).write = .ok outcome.package := by
  unfold merge at h
  rw [hread] at h
  dsimp only [Except.mapError, bind, Except.bind] at h
  cases hsources : (Source.fetchAll answers Source.Request.usualSeconds data.sources).2 with
  | error e =>
    rw [hsources] at h
    cases h
  | ok sources =>
    rw [hsources] at h
    dsimp only at h
    cases hmerged : t.document.merge settings
        (Context.ofSources data.record data.system sources data.fieldTypes data.now) with
    | error e =>
      rw [hmerged] at h
      cases h
    | ok merged =>
      rw [hmerged] at h
      dsimp only at h
      cases hpackage : ({ t with document := merged.document } : Template).write with
      | error e =>
        rw [hpackage] at h
        cases h
      | ok package =>
        rw [hpackage] at h
        obtain rfl := Except.ok.inj h
        exact ⟨_, hmerged, hpackage⟩

/-- A package without named sources is merged if its document is merged and the result is written. -/
theorem merge_of_write (answers : Text → Source.Response) {settings : Settings} {data : MergeData} {p : Package}
    {t : Template} {merged : Merged} {package : Package} (hread : Template.read p = .ok t)
    (hsources : data.sources = [])
    (hmerged : t.document.merge settings
      (Context.ofSources data.record data.system [] data.fieldTypes data.now) = .ok merged)
    (hwrite : ({ t with document := merged.document } : Template).write = .ok package) :
    merge answers settings data p = .ok { package, merged, requests := [] } := by
  rw [merge, hread, hsources]
  dsimp only [Source.fetchAll, Except.mapError, bind, Except.bind]
  rw [hmerged]
  dsimp only
  rw [hwrite]
  rfl

/-- What a template is that was read. -/
theorem exists_of_read {p : Package} {t : Template} (h : Template.read p = .ok t) :
    t.package = p ∧ (p.content? mainPart).isSome ∧
      ∃ parts, Template.readParts p Labels.standard p.partNames = .ok parts ∧
        t.sources = parts.map (fun e => (e.2.name, e.1)) ∧ t.document.parts = parts.map (·.2) := by
  unfold Template.read at h
  split at h
  · cases h
  · next hmain =>
    cases hparts : Template.readParts p Labels.standard p.partNames with
    | error e =>
      rw [hparts] at h
      cases h
    | ok parts =>
      rw [hparts] at h
      obtain rfl := Except.ok.inj h
      refine ⟨rfl, ?_, parts, rfl, rfl, rfl⟩
      rwa [Bool.not_eq_true, Option.isNone_eq_false_iff] at hmain

/-- The XML of a part is found by its name. -/
theorem lookup_of_content {p : Package} {parts : List (Text × Part)}
    (h : ∀ e ∈ parts, Text.ofBytes? ((p.content? e.2.name).getD .empty) = some e.1) {e : Text × Part}
    (he : e ∈ parts) : (parts.map fun e => (e.2.name, e.1)).lookup e.2.name = some e.1 := by
  induction parts with
  | nil => cases he
  | cons x parts ih =>
    rw [List.forall_mem_cons] at h
    rw [List.map_cons, List.lookup_cons]
    by_cases hx : e.2.name = x.2.name
    · -- Two parts of one name have the same XML, that of the member of this name.
      have hxml : Text.ofBytes? ((p.content? e.2.name).getD .empty) = some e.1 := by
        rcases List.mem_cons.1 he with rfl | he
        · exact h.1
        · exact h.2 e he
      rw [hx, h.1] at hxml
      rw [hx, beq_self_eq_true]
      exact hxml
    · rw [beq_eq_false_iff_ne.2 hx]
      refine ih h.2 ((List.mem_cons.1 he).resolve_left ?_)
      rintro rfl
      exact hx rfl

/-! ## Fitting templates -/

/-- The document has the parts of the package, and each part takes its nodes. -/
structure Fitting (t : Template) : Prop where
  main : (t.package.content? mainPart).isSome
  names : t.document.parts.map (·.name) = t.package.partNames
  takes : ∀ part ∈ t.document.parts, ∃ xml, t.sources.lookup part.name = some xml ∧ Takes xml part.nodes

/-- A template that is read is fitting if its parts have slots. -/
theorem fitting_of_read {p : Package} {t : Template} (h : Template.read p = .ok t)
    (hslots : ∀ e ∈ t.sources, HasSlot e.2) : Fitting t := by
  obtain ⟨rfl, hmain, parts, hparts, hsources, hdocument⟩ := exists_of_read h
  obtain ⟨hnames, htakes⟩ := takes_of_readParts hparts registerIsSound_standard fun e he =>
    hslots (e.2.name, e.1) (hsources ▸ List.mem_map_of_mem he)
  refine ⟨hmain, by rw [hdocument, List.map_map, ← hnames]; rfl, fun part hpart => ?_⟩
  rw [hdocument] at hpart
  obtain ⟨e, he, rfl⟩ := List.mem_map.1 hpart
  rw [hsources]
  exact ⟨e.1, lookup_of_content (fun e he => (htakes e he).1) he, (htakes e he).2⟩

namespace Fitting

variable {t : Template}

/-- What a merge makes of it is fitting too. -/
theorem merge {settings : Settings} {c : Context} {m : Merged} (h : Fitting t)
    (hm : t.document.merge settings c = .ok m) : Fitting { t with document := m.document } where
  main := h.main
  names := (Merging.map_eq_of_forall₂ (Document.carries_merge hm) fun _ _ hpart => hpart.1).trans h.names
  takes part hpart := by
    obtain ⟨original, horiginal, hname, hcarries⟩ :=
      Merging.exists_of_forall₂ (Document.carries_merge hm).flip hpart
    obtain ⟨xml, hsource, head, foot, d, f, frames, hslot, hfits⟩ := h.takes original horiginal
    exact ⟨xml, hname ▸ hsource, head, foot, d, f, frames, hslot, hcarries _ .nil hfits⟩

/-- **What is written of it can be read if all its texts are legal**, and only then. -/
theorem read_write_iff {package : Package} (h : Fitting t) (hwrite : t.write = .ok package) :
    (∃ t', Template.read package = .ok t') ↔ ∀ q ∈ t.document.paragraphs, IsLegalText q.2.text := by
  have hsame := map_name_of_write hwrite
  have hnames : package.partNames = t.document.parts.map (·.name) := by
    rw [Package.partNames, hsame, ← Package.partNames, h.names]
  have hmember : ∀ part ∈ t.document.parts, part.name ∈ t.package.map (·.name) := fun part hpart =>
    mem_partNames h.main (h.names ▸ List.mem_map_of_mem hpart)
  have hmain : (package.content? mainPart).isSome := by
    have hmem := hsame ▸ mem_partNames h.main List.mem_cons_self
    obtain ⟨m, -, -, hcontent⟩ := exists_content? hmem
    rw [hcontent]
    rfl
  have hpart : ∀ part ∈ t.document.parts,
      (HasReadable package part.name ↔ AllLegal (Node.placedParagraphs part.nodes)) := by
    intro part hpart
    obtain ⟨xml, hsource, htakes⟩ := h.takes part hpart
    obtain ⟨written, hwritten, hcontent⟩ :=
      content?_of_write hwrite (h.names ▸ nodup_partNames t.package) hpart (hmember part hpart)
    rw [← isReadable_iff_of_writePart hsource htakes hwritten, HasReadable, hcontent, Option.getD_some,
      Text.ofBytes?_toBytes]
    simp only [Option.some.injEq, exists_eq_left']
  rw [exists_read_iff, hnames, List.forall_mem_map, and_iff_right hmain, forall₂_congr hpart]
  simp only [AllLegal, Document.paragraphs, Node.allParagraphs, List.forall_mem_flatMap, List.forall_mem_map]

end Fitting

/-- **A package that is merged can be read again if all characters of the merged texts are legal**, and only
then, if each part has a slot. -/
theorem read_merge_iff {answers : Text → Source.Response} {settings : Settings} {data : MergeData} {p : Package}
    {t : Template} {outcome : Outcome} (hread : Template.read p = .ok t) (hslots : ∀ e ∈ t.sources, HasSlot e.2)
    (h : merge answers settings data p = .ok outcome) :
    (∃ t', Template.read outcome.package = .ok t') ↔
      ∀ q ∈ outcome.merged.document.paragraphs, ∀ c ∈ q.2.text, isLegal c := by
  obtain ⟨c, hmerge, hwrite⟩ := exists_of_merge hread h
  exact ((fitting_of_read hread hslots).merge hmerge).read_write_iff hwrite

/-- A note with a field. -/
def noteNodes : List Node := [Node.ofText (Marker.enclose "Name")]

/-- The note as it is written. -/
def noteBody : Text := writeParagraph (Paragraph.ofText (Marker.enclose "Name") [] [])

/-- The template in the package of the note. -/
def note : Template where
  package := packageWith noteBody
  sources := [(mainPart, mainPartWith noteBody)]
  document := { parts := [{ name := mainPart, nodes := noteNodes }] }

/-- The data for the note. -/
def noteData (name : Text) : MergeData where
  record := [("Name", .text name)]
  system := []
  sources := []
  fieldTypes := []
  now := { date := { year := 2024, month := 1, day := 1 } }

theorem read_note : Template.read (packageWith noteBody) = .ok note := by
  have hplain : arePlainBlocks noteNodes := by decide
  have hwritten : writeBlocks noteNodes = .ok (noteBody ++ []) := rfl
  obtain ⟨inner, es, hinner, hread, -, hes⟩ := readAs_blocks (takesMarkup_rootScope true) hplain
  rw [hwritten, List.append_nil] at hinner
  obtain rfl := Except.ok.inj hinner
  exact read_packageWith hread hes

theorem isSlot_note :
    IsSlot (mainPartWith noteBody) mainPartHead mainPartFoot { standsAlone := true } bodyFrame [rootFrame] := by
  have hnote : (literalElement? (mainPartWith noteBody)).any fun root =>
      hollow root = markupElement markupSpace "document" [markupElement markupSpace "body" []] ∧
      (container? root).isSome := by
    decide +kernel
  obtain ⟨root, hliteral, hroot⟩ := (Option.any_eq_true _ _).1 hnote
  obtain ⟨hhollow, hcontainer⟩ := of_decide_eq_true hroot
  exact (framed_mainPartWith hliteral hhollow (by decide +kernel) (by decide +kernel)).isSlot hcontainer

/-- The note can be merged with a name if its document can. -/
theorem exists_merge_note {name : Text}
    (h : (note.document.merge {} (Context.ofSources (noteData name).record [] [] [] (noteData name).now)).toOption.any
      fun m => m.document.paragraphs.map (·.2.text) = [name] ∧
        ∀ part ∈ m.document.parts, part.name = mainPart ∧ (writeBlocks part.nodes).isOk) :
    ∃ outcome, merge (fun _ => .timeout) {} (noteData name) (packageWith noteBody) = .ok outcome ∧
      outcome.merged.document.paragraphs.map (·.2.text) = [name] := by
  cases hmerged : note.document.merge {}
      (Context.ofSources (noteData name).record [] [] [] (noteData name).now) with
  | error e =>
    rw [hmerged] at h
    cases h
  | ok merged =>
    rw [hmerged] at h
    obtain ⟨htexts, hparts⟩ := of_decide_eq_true h
    obtain ⟨package, hwrite⟩ :
        ∃ package, ({ note with document := merged.document } : Template).write = .ok package := by
      refine exists_write fun part hpart => ?_
      obtain ⟨hname, hblocks⟩ := hparts part hpart
      have hsource : note.sources.lookup part.name = some (mainPartWith noteBody) := by
        rw [hname]
        rfl
      rw [Template.writePart, hsource]
      cases hinner : writeBlocks part.nodes with
      | error e =>
        rw [hinner] at hblocks
        cases hblocks
      | ok inner =>
        dsimp only [Option.getD_some, bind, Except.bind]
        exact ⟨_, isSlot_note.splice inner⟩
    exact ⟨_, merge_of_write (fun _ => .timeout) read_note rfl hmerged hwrite, htexts⟩

/-- **A note with a name can be read again, and one with a control character cannot.** -/
theorem read_merge_iff_note :
    (∃ outcome, merge (fun _ => .timeout) {} (noteData "Ann & Bob") (packageWith noteBody) = .ok outcome ∧
      ∃ t', Template.read outcome.package = .ok t') ∧
    ∃ outcome, merge (fun _ => .timeout) {} (noteData ['a', '\x01']) (packageWith noteBody) = .ok outcome ∧
      ¬ ∃ t', Template.read outcome.package = .ok t' := by
  have hslots : ∀ e ∈ note.sources, HasSlot e.2 :=
    List.forall_mem_singleton.2 ⟨_, _, _, _, _, isSlot_note⟩
  obtain ⟨outcome, hmerge, htexts⟩ := @exists_merge_note "Ann & Bob" (by decide +kernel)
  obtain ⟨outcome', hmerge', htexts'⟩ := @exists_merge_note ['a', '\x01'] (by decide +kernel)
  refine ⟨⟨outcome, hmerge, (read_merge_iff read_note hslots hmerge).2 fun q hq => ?_⟩,
    outcome', hmerge', fun hread => ?_⟩
  · have htext := List.mem_map_of_mem (f := fun q => q.2.text) hq
    rw [htexts, List.mem_singleton] at htext
    rw [htext]
    decide
  · have htext : ['a', '\x01'] ∈ outcome'.merged.document.paragraphs.map (·.2.text) := by
      rw [htexts']
      exact List.mem_singleton_self _
    obtain ⟨q, hq, htext⟩ := List.mem_map.1 htext
    have hlegal := (read_merge_iff read_note hslots hmerge').1 hread q hq '\x01' (by rw [htext]; decide)
    exact absurd hlegal (by decide)

end MailMerge.Docx
