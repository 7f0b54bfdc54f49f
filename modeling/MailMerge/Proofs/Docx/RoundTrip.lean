import MailMerge.Docx.Package
import MailMerge.Proofs.Docx.Blocks
import MailMerge.Proofs.Xml.Filled

/-!
# Reading what was written

A document that was not read from a package is written into a new one, whose main part has the blocks
between the tags of its body.

**`read_write_ofDocument`**: a document of plain blocks is read from its new package as it was.
-/

namespace MailMerge.Docx

open Xml

/-! ## The main part -/

/-- The attributes of the root of a new main part. -/
def rootAttributes : List (Text × Text) := [("xmlns:w", markupSpace)]

/-- What is in scope in a new main part. -/
def rootScope : Xml.Scope := ("w", markupSpace) :: Xml.Scope.initial

/-- A new main part with blocks in its body. -/
def mainPartWith (inner : Text) : Text :=
  Template.xmlDeclaration ++ ('<' :: ("w:document".toList ++ settings rootAttributes ++ ['>']) ++
    element "body" inner ++ '<' :: ('/' :: "w:document".toList ++ ['>']))

/-- What comes before the blocks in a new main part. -/
def mainPartHead : Text :=
  Template.xmlDeclaration ++
    ('<' :: ("w:document".toList ++ settings rootAttributes ++ ['>']) ++ ("<w:".toList ++ "body".toList ++ ['>']))

/-- What comes after the blocks in a new main part. -/
def mainPartFoot : Text :=
  "</w:".toList ++ "body".toList ++ ['>'] ++ '<' :: ('/' :: "w:document".toList ++ ['>'])

theorem mainPartWith_eq (inner : Text) : mainPartWith inner = mainPartHead ++ inner ++ mainPartFoot := by
  simp only [mainPartWith, mainPartHead, mainPartFoot, element, List.append_assoc, List.cons_append, List.nil_append]

/-- Blocks come between the start tag that is found and the last end tag. -/
theorem splice_of_find? {xml head foot : Text}
    (h : (FoundTag.find? [bodyLabel] xml).any fun tag =>
      tag.before ++ tag.text = head ∧ fromLast tag.closing xml = foot) (inner : Text) :
    splice xml inner = .ok (head ++ inner ++ foot) := by
  obtain ⟨tag, hfound, hsame⟩ := (Option.any_eq_true _ _).1 h
  obtain ⟨hhead, hfoot⟩ := of_decide_eq_true hsame
  rw [splice, hfound]
  dsimp only
  rw [hhead, hfoot]

/-- The blocks come between the tags of the body. -/
theorem splice_emptyMainPart (inner : Text) :
    splice Template.emptyMainPart inner = .ok (mainPartWith inner) := by
  rw [mainPartWith_eq]
  exact splice_of_find? (by decide +kernel) inner

theorem takesMarkup_rootScope (standsAlone : Bool) : TakesMarkup { standsAlone } rootScope markupSpace :=
  ⟨rfl, by decide, by decide⟩

/-- **The elements between the tags of the body are those of the body.** -/
theorem parse?_mainPartWith {inner : Text} {es : List Element}
    (h : ReadAs { standsAlone := true } rootScope inner es) :
    parse? (mainPartWith inner) =
      some (markupElement markupSpace "document" [markupElement markupSpace "body" es]) := by
  have hbody := ReadAs.markup (takesMarkup_rootScope true) "body" (by decide) h
  have hroot : Frame.enter? Xml.Scope.initial "w:document" rootAttributes =
      some { label := "w:document", scope := rootScope, name := Tag.document, attributes := [] } := by
    rfl
  have hdecl : ∀ u, u.head? = some '<' →
      declaration? (Template.xmlDeclaration ++ u) = some (true, u) := by
    intro u _
    have hread : declaration? Template.xmlDeclaration = some (true, []) := by decide +kernel
    exact declaration?_append hread (by decide) u
  have hmark : ∀ u, u.head? = some '<' →
      Text.dropStart? ['\uFEFF'] (Template.xmlDeclaration ++ u) = none := by
    intro u hu
    rfl
  have hparse := parse?_written hmark (by decide) hdecl (by decide) (by decide) hroot hbody.content
  rw [mainPartWith, hparse, Frame.element_addAll rfl rfl rfl hbody.tails]
  rfl

/-! ## The package -/

/-- In a package of members with different names each member has its own content. -/
theorem content?_of_nodup {p : Package} (hp : (p.map (·.name)).Nodup) {m : Member} (hm : m ∈ p) :
    p.content? m.name = some m.content := by
  have hfilter : p.filter (fun x => x.name = m.name) = [m] := by
    induction p with
    | nil => cases hm
    | cons x p ih =>
      rw [List.map_cons, List.nodup_cons] at hp
      have hx : ∀ y ∈ p, y.name ≠ x.name := by
        intro y hy he
        exact hp.1 (he ▸ List.mem_map_of_mem hy)
      rcases List.mem_cons.1 hm with rfl | hm
      · rw [List.filter_cons_of_pos (by simp), List.filter_eq_nil_iff.2 (by simpa using hx)]
      · rw [List.filter_cons_of_neg (by simpa using (hx m hm).symm), ih hp.2 hm]
  rw [Package.content?, hfilter]
  rfl

/-- A member that is no part of the document is copied. -/
theorem writeMember_of_ne {t : Template} {m : Member} (hm : m ∈ t.package)
    (hp : (t.package.map (·.name)).Nodup) (hparts : ∀ p ∈ t.document.parts, p.name ≠ m.name) :
    t.writeMember m = .ok m := by
  have hfind : t.document.parts.find? (fun p => p.name = m.name) = none := by
    rw [List.find?_eq_none]
    simpa using hparts
  rw [Template.writeMember, hfind]
  dsimp only
  rw [content?_of_nodup hp hm]
  rfl

/-- The names of the members of a new package. -/
def newNames : List Text := ["[Content_Types].xml", "_rels/.rels", mainPart]

/-- A new package with blocks in its main part. -/
def packageWith (inner : Text) : Package :=
  [ { name := "[Content_Types].xml", content := Text.toBytes Template.contentTypes },
    { name := "_rels/.rels", content := Text.toBytes Template.relationships },
    { name := mainPart, content := Text.toBytes (mainPartWith inner) } ]

theorem map_name_packageWith (inner : Text) : (packageWith inner).map (·.name) = newNames := rfl

theorem nodup_newNames : newNames.Nodup := by decide

theorem writePart_ofDocument {nodes : List Node} {inner : Text} (h : writeBlocks nodes = .ok inner) :
    (Template.ofDocument { parts := [{ name := mainPart, nodes }] }).writePart { name := mainPart, nodes } =
      .ok (mainPartWith inner) := by
  have hsource : ([] : List (Text × Text)).lookup mainPart = none := rfl
  unfold Template.writePart
  dsimp only [Template.ofDocument]
  simp only [hsource, h, Option.getD_none, bind, Except.bind]
  exact splice_emptyMainPart inner

theorem write_ofDocument {nodes : List Node} {inner : Text} (h : writeBlocks nodes = .ok inner) :
    (Template.ofDocument { parts := [{ name := mainPart, nodes }] }).write = .ok (packageWith inner) := by
  have hcopied : ∀ m ∈ (Template.ofDocument { parts := [{ name := mainPart, nodes }] }).package,
      mainPart ≠ m.name →
      (Template.ofDocument { parts := [{ name := mainPart, nodes }] }).writeMember m = .ok m := by
    intro m hm hne
    refine writeMember_of_ne hm nodup_newNames ?_
    intro p hp
    rw [List.mem_singleton.1 hp]
    exact hne
  have hmain : (Template.ofDocument { parts := [{ name := mainPart, nodes }] }).writeMember
      { name := mainPart, content := Text.toBytes Template.emptyMainPart } =
        .ok { name := mainPart, content := Text.toBytes (mainPartWith inner) } := by
    have hfind : [({ name := mainPart, nodes } : Part)].find? (fun p => p.name = mainPart) =
        some { name := mainPart, nodes } := by
      simp
    have hpart := writePart_ofDocument h
    unfold Template.writeMember
    dsimp only [Template.ofDocument] at hpart ⊢
    rw [hfind]
    dsimp only
    rw [hpart]
    rfl
  have hne : mainPart ≠ "[Content_Types].xml".toList ∧ mainPart ≠ "_rels/.rels".toList := by decide
  have h₁ := hcopied { name := "[Content_Types].xml", content := Text.toBytes Template.contentTypes }
    (List.mem_cons_self) hne.1
  have h₂ := hcopied { name := "_rels/.rels", content := Text.toBytes Template.relationships }
    (List.mem_cons_of_mem _ List.mem_cons_self) hne.2
  rw [Template.write]
  show List.mapM _ [_, _, _] = _
  rw [List.mapM_cons, h₁, List.mapM_cons, h₂, List.mapM_cons, hmain]
  rfl

theorem partNames_packageWith (inner : Text) : (packageWith inner).partNames = [mainPart] := by
  have hothers : newNames.filter (fun name => name ≠ mainPart && Package.isPartName name) = [] := by
    decide +kernel
  rw [Package.partNames, map_name_packageWith, hothers, List.eraseDups_nil, List.mergeSort_nil]

theorem read_packageWith {inner : Text} {es : List Element} {nodes : List Node}
    (h : ReadAs { standsAlone := true } rootScope inner es) (hes : ∀ l, blocks l none es = nodes) :
    Template.read (packageWith inner) =
      .ok
        { package := packageWith inner, sources := [(mainPart, mainPartWith inner)],
          document := { parts := [{ name := mainPart, nodes }] } } := by
  have hcontent : (packageWith inner).content? mainPart = some (Text.toBytes (mainPartWith inner)) :=
    @content?_of_nodup (packageWith inner) nodup_newNames
      { name := mainPart, content := Text.toBytes (mainPartWith inner) } (by simp [packageWith])
  have hpart : ∀ l, readPart l mainPart (mainPartWith inner) = .ok { name := mainPart, nodes } := by
    intro l
    have hcontainer : container? (markupElement markupSpace "document"
        [markupElement markupSpace "body" es]) = some (markupElement markupSpace "body" es) := by
      rfl
    rw [readPart, parse?_mainPartWith h]
    dsimp only [Option.elim_some, bind, Except.bind]
    rw [hcontainer, ← hes l]
    rfl
  have hparts : Template.readParts (packageWith inner) Labels.standard [mainPart] =
      .ok [(mainPartWith inner, { name := mainPart, nodes })] := by
    rw [Template.readParts, hcontent]
    dsimp only [Option.getD_some]
    rw [Text.ofBytes?_toBytes]
    dsimp only [Option.elim_some, bind, Except.bind]
    rw [hpart, Template.readParts]
    rfl
  rw [Template.read, hcontent, partNames_packageWith, hparts]
  rfl

/-- **A document of plain blocks is read from its new package as it was.** -/
theorem read_write_ofDocument {nodes : List Node} (h : arePlainBlocks nodes) :
    ∃ p t, (Template.ofDocument { parts := [{ name := mainPart, nodes }] }).write = .ok p ∧
      Template.read p = .ok t ∧ t.document = { parts := [{ name := mainPart, nodes }] } := by
  obtain ⟨inner, es, hinner, hread, -, hes⟩ := readAs_blocks (takesMarkup_rootScope true) h
  exact ⟨_, _, write_ofDocument hinner, read_packageWith hread hes, rfl⟩

/-- Blocks with a table in a table, and with texts that look like markup. -/
def nestedBlocks : List Node :=
  [ .paragraph { runs := [{ text := " a\tb\n\n<w:p> & \"c\" 'd' ]]> " }, { text := "\n" }] },
    .pageBreak [],
    .table []
      [ .row []
          [ .cell [] [.table [] [.row [] [.cell [] [.pageBreak []]]], .paragraph { runs := [] }],
            .cell [] [.paragraph { runs := [{ text := "\t" }] }] ],
        .row [] [] ] ]

theorem read_write_nestedBlocks :
    arePlainBlocks nestedBlocks ∧
      ∃ p t, (Template.ofDocument { parts := [{ name := mainPart, nodes := nestedBlocks }] }).write = .ok p ∧
        Template.read p = .ok t ∧ t.document = { parts := [{ name := mainPart, nodes := nestedBlocks }] } :=
  ⟨by decide +kernel, read_write_ofDocument (by decide +kernel)⟩

end MailMerge.Docx
