import MailMerge.Proofs.Merge.Results
import MailMerge.Proofs.Tree.Writing
import MailMerge.Section.Expansion

/-!
# The rows of a section for its records

The rows of a section are captured once and rendered for each record. For the first record the texts
are written into the rows that are there, for the others rows are built anew. Either way each row has
the properties and the cells of the row it comes from, and in each cell the text that the captured
text of the cell is rendered to.

**`rowFor_of_gives`**: a row that is rendered for a record has the shape of its template.

**`rowsFor_of_gives`**: a section becomes its rows for each record, one set after the other.
-/

namespace MailMerge.Section

open Merging (Gives gives_bind_iff gives_pure_iff gives_mapM_iff)

variable {settings : Settings} {c : Context}

/-! ## Rows for records -/

/-- What is captured has the properties of the row and of its cells. -/
def Fits (s : RowSnapshot) (row : Node) : Prop :=
  s.attributes = row.attributes ∧ s.cells.map (·.attributes) = row.children.map Node.attributes

theorem map_attributes_changeFirstCell (marker : Text) (change : Text → Text)
    (cells : List CellSnapshot) :
    (changeFirstCell marker change cells).map (·.attributes) = cells.map (·.attributes) := by
  induction cells with
  | nil => rfl
  | cons cell cells ih =>
    rw [changeFirstCell]
    split
    · rfl
    · rw [List.map_cons, ih, List.map_cons]

theorem Fits.stripFirst {s : RowSnapshot} {row : Node} (h : Fits s row) (marker : Text) :
    Fits (RowSnapshot.stripFirst marker s) row :=
  ⟨h.1, (map_attributes_changeFirstCell ..).trans h.2⟩

theorem Fits.stripLast {s : RowSnapshot} {row : Node} (h : Fits s row) (marker : Text) :
    Fits (RowSnapshot.stripLast marker s) row := by
  refine ⟨h.1, ?_⟩
  rw [RowSnapshot.stripLast, List.map_reverse, map_attributes_changeFirstCell, List.map_reverse,
    List.reverse_reverse]
  exact h.2

theorem fits_captureRow (row : Node) : Fits row.captureRow row := by
  refine ⟨rfl, ?_⟩
  rw [Node.captureRow, List.map_map]
  rfl

/-- **The rows of a section are captured with their properties**, one for one. -/
theorem fits_captureRows (opener : Marker) (closer : Option Marker) (rows : List Node) :
    List.Forall₂ Fits (captureRows opener closer rows) rows := by
  have hrows : List.Forall₂ Fits (rows.map Node.captureRow) rows := by
    rw [List.forall₂_map_left_iff, List.forall₂_same]
    exact fun row _ => fits_captureRow row
  have hopened := Merging.forall₂_modifyHead hrows fun s row h => h.stripFirst opener.text
  unfold captureRows
  cases closer with
  | none => exact hopened
  | some closer =>
    have hclosed := List.rel_reverse (Merging.forall₂_modifyHead (List.rel_reverse hopened)
      fun s row h => h.stripLast closer.text)
    rwa [List.reverse_reverse] at hclosed

/-- A cell that is rendered for a record: it has the properties of the cell in the template, and the
text that comes of what was captured of it. -/
def CellFor (settings : Settings) (c : Context) (s : CellSnapshot) (template made : Node) : Prop :=
  made.attributes = template.attributes ∧ (render settings c true s.text).Gives made.text

/-- A row that is rendered for a record: it has the properties of the row in the template, and for
each cell of the template one cell. It is marked as rendered. -/
structure RowFor (settings : Settings) (c : Context) (s : RowSnapshot) (template made : Node) :
    Prop where
  rendered : made.rendered = true
  attributes : made.attributes = template.attributes
  length_cells : made.children.length = template.children.length
  cells : ∀ (i : Nat) cell, template.children[i]? = some cell →
    ∃ s' cell', s.cells[i]? = some s' ∧ made.children[i]? = some cell' ∧
      CellFor settings c s' cell cell'

theorem Fits.length_cells {s : RowSnapshot} {row : Node} (h : Fits s row) :
    s.cells.length = row.children.length := by
  have hlen := congrArg List.length h.2
  rwa [List.length_map, List.length_map] at hlen

/-- Each cell of the row is captured with its properties. -/
theorem Fits.exists_cell {s : RowSnapshot} {row : Node} (h : Fits s row) {i : Nat} {cell : Node}
    (hc : row.children[i]? = some cell) :
    ∃ s', s.cells[i]? = some s' ∧ s'.attributes = cell.attributes := by
  have hi := congrArg (·[i]?) h.2
  simpa [hc] using hi

/-- Texts were rendered for the cells of a row. -/
def Texts (settings : Settings) (c : Context) (s : RowSnapshot) (texts : List Text) : Prop :=
  List.Forall₂ (fun cell t => (render settings c true (CellSnapshot.text cell)).Gives t) s.cells texts

theorem rowFor_writeRow {s : RowSnapshot} {row : Node} (hf : Fits s row) (hr : row.isRow)
    {texts : List Text} (ht : Texts settings c s texts) :
    RowFor settings c s row (row.writeRow texts).markRendered := by
  cases row with
  | row attributes cells rendered =>
    constructor
    case rendered => rfl
    case attributes => rfl
    case length_cells => exact Node.length_writeCells cells texts
    case cells =>
      intro i cell hc
      obtain ⟨s', hs, -⟩ := hf.exists_cell hc
      obtain ⟨t, hi, hg⟩ := Merging.getElem?_of_forall₂ ht hs
      obtain ⟨cell', hm, ha, he⟩ := Node.getElem?_writeCells hr hc hi
      refine ⟨s', cell', hs, hm, ha, ?_⟩
      rwa [he]
  | _ => cases hr

theorem rowFor_build {s : RowSnapshot} {row : Node} (hf : Fits s row) {texts : List Text}
    (ht : Texts settings c s texts) : RowFor settings c s row (s.build texts).markRendered := by
  constructor
  case rendered => rfl
  case attributes => exact hf.1
  case length_cells =>
    show ((s.cells.zip texts).map _).length = _
    rw [List.length_map, List.length_zip, ← ht.length_eq, Nat.min_self, hf.length_cells]
  case cells =>
    intro i cell hc
    obtain ⟨s', hs, ha⟩ := hf.exists_cell hc
    obtain ⟨t, hi, hg⟩ := Merging.getElem?_of_forall₂ ht hs
    refine ⟨s', s'.build t, hs, ?_, ha, ?_⟩
    · have hzip : (s.cells.zip texts)[i]? = some (s', t) := List.getElem?_zip_eq_some.2 ⟨hs, hi⟩
      show ((s.cells.zip texts).map fun p => p.1.build p.2)[i]? = _
      rw [List.getElem?_map, hzip]
      rfl
    · rwa [Node.text_build]

/-- **A row that is rendered for a record has the shape of its template**, whether it is written into
or built anew. -/
theorem rowFor_of_gives {s : RowSnapshot} {row made : Node} (hf : Fits s row) (hr : row.isRow)
    (original : Bool)
    (h : (renderRow settings c (if original then some row else none) s).Gives made) :
    RowFor settings c s row made := by
  unfold renderRow at h
  obtain ⟨row', hrow, hmade⟩ := gives_bind_iff.1 h
  obtain rfl := gives_pure_iff.1 hmade
  rw [Merging.gives_claimed_iff] at hrow
  cases original with
  | true =>
    obtain ⟨texts, ht, he⟩ := gives_bind_iff.1 hrow
    obtain rfl := gives_pure_iff.1 he
    exact rowFor_writeRow hf hr (gives_mapM_iff.1 ht)
  | false =>
    obtain ⟨texts, ht, he⟩ := gives_bind_iff.1 hrow
    obtain rfl := gives_pure_iff.1 he
    exact rowFor_build hf (gives_mapM_iff.1 ht)

/-! ## Sections -/

/-- The rows that a section becomes: bound to some records, the rows of its template for the first
record, then those for the second, and so on. -/
def RowsFor (settings : Settings) (c : Context) (nested : Bool) (opener : Marker)
    (closer : Option Marker) (rows made : List Node) : Prop :=
  ∃ records : List Value,
    (Section.records settings opener c nested : Merging PendingImage (List Value)).Gives records ∧
    made.length = records.length * rows.length ∧
    ∀ (k j : Nat) record template, records[k]? = some record → rows[j]? = some template →
      ∃ s row, (captureRows opener closer rows)[j]? = some s ∧
        made[k * rows.length + j]? = some row ∧
        RowFor settings (c.forRow record k) s template row

theorem length_flatten_of_length {α : Type} {ls : List (List α)} {m : Nat}
    (h : ∀ l ∈ ls, l.length = m) : ls.flatten.length = ls.length * m := by
  induction ls with
  | nil => simp
  | cons l ls ih =>
    rw [List.flatten_cons, List.length_append, h l List.mem_cons_self,
      ih fun x hx => h x (List.mem_cons_of_mem l hx), List.length_cons, Nat.succ_mul, Nat.add_comm]

/-- Lists of the same length are found one after the other where they are put together. -/
theorem getElem?_flatten_of_length {α : Type} {ls : List (List α)} {m : Nat}
    (h : ∀ l ∈ ls, l.length = m) {k j : Nat} {l : List α} (hk : ls[k]? = some l) (hj : j < m) :
    ls.flatten[k * m + j]? = l[j]? := by
  induction ls generalizing k with
  | nil => simp at hk
  | cons first ls ih =>
    have hfirst := h first List.mem_cons_self
    rw [List.flatten_cons]
    cases k with
    | zero =>
      obtain rfl := Option.some.inj hk
      rw [Nat.zero_mul, Nat.zero_add, List.getElem?_append_left (by omega)]
    | succ k =>
      have hi := ih (fun x hx => h x (List.mem_cons_of_mem first hx)) hk
      rw [List.getElem?_append_right (by rw [hfirst, Nat.succ_mul]; omega), ← hi]
      congr 1
      rw [hfirst, Nat.succ_mul]
      omega

/-- **A section becomes its rows for each record**, one set after the other. -/
theorem rowsFor_of_gives {nested : Bool} {opener : Marker} {closer : Option Marker}
    {rows made : List Node} (hrows : ∀ row ∈ rows, row.isRow)
    (h : (renderRows settings c nested opener closer rows).Gives made) :
    RowsFor settings c nested opener closer rows made := by
  rw [renderRows] at h
  obtain ⟨records, hrecords, h⟩ := gives_bind_iff.1 h
  obtain ⟨sets, hsets, hmade⟩ := gives_bind_iff.1 h
  obtain rfl := gives_pure_iff.1 hmade
  have hfits := fits_captureRows opener closer rows
  have hsets := gives_mapM_iff.1 hsets
  -- The set of a record holds a row for each row of the template.
  have hset : ∀ (k : Nat) record, records[k]? = some record → ∃ set, sets[k]? = some set ∧
      List.Forall₂ (fun (template : RowSnapshot × Node) row =>
        (renderRow settings (c.forRow record k) (if k = 0 then some template.2 else none)
          template.1).Gives row) ((captureRows opener closer rows).zip rows) set := by
    intro k record hk
    have hz : records.zipIdx[k]? = some (record, k) := by simp [hk]
    obtain ⟨set, hs, hg⟩ := Merging.getElem?_of_forall₂ hsets hz
    rw [Merging.gives_shifted_iff, Merging.gives_forEach_iff] at hg
    exact ⟨set, hs, hg⟩
  have hzip : ((captureRows opener closer rows).zip rows).length = rows.length := by
    rw [List.length_zip, hfits.length_eq, Nat.min_self]
  have hlen : ∀ set ∈ sets, set.length = rows.length := by
    intro set hm
    obtain ⟨k, hk⟩ := List.mem_iff_getElem?.1 hm
    obtain ⟨record, hr⟩ : ∃ record, records[k]? = some record := by
      have hlt := (List.getElem?_eq_some_iff.1 hk).1
      rw [← hsets.length_eq, List.length_zipIdx] at hlt
      exact ⟨records[k], List.getElem?_eq_getElem hlt⟩
    obtain ⟨set', hs, hg⟩ := hset k record hr
    obtain rfl := Option.some.inj (hk.symm.trans hs)
    rw [← hg.length_eq, hzip]
  refine ⟨records, hrecords, ?_, ?_⟩
  · rw [length_flatten_of_length hlen, ← hsets.length_eq, List.length_zipIdx]
  · intro k j record template hk hj
    obtain ⟨set, hs, hg⟩ := hset k record hk
    obtain ⟨s, hcap, hfit⟩ := Merging.getElem?_of_forall₂ hfits.flip hj
    have htemplate : ((captureRows opener closer rows).zip rows)[j]? = some (s, template) :=
      List.getElem?_zip_eq_some.2 ⟨hcap, hj⟩
    obtain ⟨row, hrow, hg⟩ := Merging.getElem?_of_forall₂ hg htemplate
    have hlt := (List.getElem?_eq_some_iff.1 hj).1
    refine ⟨s, row, hcap, ?_, ?_⟩
    · rw [getElem?_flatten_of_length hlen hs hlt, hrow]
    · refine rowFor_of_gives hfit (hrows template (List.mem_of_getElem? hj)) (decide (k = 0)) ?_
      simpa using hg

end MailMerge.Section
