import MailMerge.Context
import Mathlib.Data.List.Induction

/-!
# What is in scope in a row context

The positions of a row, the names of its record and the names of all outer rows stand in one record,
which is joined anew for each row. In a chain of rows a name still means what the innermost row that
has it says, and else what the base data says; only the names of the positions are taken.

Contexts of a chain share one memory, in which a row context is opened by copying the outer data and
by writing to the copy. So a context that has been opened reads the same ever after.

* `Record.lookup_update`: what stands under a name of a joined record.
* `Context.lookup_forRow`, `Context.lookup_forRows`: the names of one row, and of a chain of rows.
* `Context.Stored.IsWithin.forRow`, `Context.Stored.IsWithin.forRows`: the contexts as they stand in
  memory.
* **`Context.forRows_scoped`**: what the last of a chain of row contexts has in scope, and that all
  contexts before it stay as they were.
-/

namespace MailMerge

/-! ## Joined records -/

namespace Record

variable {name other : Text} {v : Value} {rest : Record}

theorem lookup_cons_of_ne (h : other ≠ name) :
    List.lookup other ((name, v) :: rest) = rest.lookup other := by
  rw [List.lookup_cons, beq_eq_false_iff_ne.2 h]

theorem lookup_insert_self (r : Record) : (r.insert name v).lookup name = some v := by
  induction r with
  | nil => exact List.lookup_cons_self
  | cons e rest ih =>
    unfold insert
    split
    case isTrue h =>
      rw [h]
      exact List.lookup_cons_self
    case isFalse h =>
      rw [lookup_cons_of_ne (Ne.symm h)]
      exact ih

theorem lookup_insert_of_ne (r : Record) (h : other ≠ name) :
    (r.insert name v).lookup other = r.lookup other := by
  induction r with
  | nil => exact lookup_cons_of_ne h
  | cons e rest ih =>
    obtain ⟨n, w⟩ := e
    unfold insert
    split
    case isTrue hn => rw [hn, lookup_cons_of_ne h, lookup_cons_of_ne h]
    case isFalse => rw [List.lookup_cons, List.lookup_cons, ih]

/-- The entries that are added win over those that were there. -/
theorem lookup_update (r : Record) {entries : Record} (h : (entries.map Prod.fst).Nodup)
    (name : Text) : (r.update entries).lookup name = (entries.lookup name).or (r.lookup name) := by
  induction entries generalizing r with
  | nil => rfl
  | cons e rest ih =>
    obtain ⟨n, v⟩ := e
    obtain ⟨hfresh, hrest⟩ := List.nodup_cons.1 h
    have hstep : (r.update ((n, v) :: rest)).lookup name =
        (rest.lookup name).or ((r.insert n v).lookup name) := ih (r.insert n v) hrest
    rw [hstep]
    by_cases hn : name = n
    · subst hn
      have hnone : rest.lookup name = none := by
        refine List.lookup_eq_none_iff.2 fun e he => bne_iff_ne.2 fun heq => hfresh ?_
        exact List.mem_map.2 ⟨e, he, heq.symm⟩
      rw [lookup_insert_self, List.lookup_cons_self, hnone]
      rfl
    · rw [lookup_insert_of_ne r hn, lookup_cons_of_ne hn]

end Record

namespace Context

variable {c : Context} {name : Text}

/-- A name without points leads to what stands under it. -/
theorem resolve_name (hne : name ≠ []) (hdot : '.' ∉ name) :
    c.resolve name = .ok ((c.data.lookup name).getD .unresolved) := by
  rw [resolve, Value.resolve, if_neg hne, Text.splitOn_of_notMem hdot]
  rfl

/-! ## One row -/

section Row

variable (c) (v : Value) (k : Int)

theorem lookup_forRow_number :
    (c.forRow v k).data.lookup "ROW_NUM".toList = some (.int (k + 1)) := by
  have hindex : ("ROW_NUM" : String).toList ≠ "ROW_INDEX".toList := by decide
  have hparent : ("ROW_NUM" : String).toList ≠ "PARENT_ROW_NUM".toList := by decide
  cases hn : c.rowNumber with
  | none => simp only [forRow, hn, Record.lookup_insert_of_ne _ hindex, Record.lookup_insert_self]
  | some n =>
    simp only [forRow, hn, Record.lookup_insert_of_ne _ hparent,
      Record.lookup_insert_of_ne _ hindex, Record.lookup_insert_self]

theorem lookup_forRow_index : (c.forRow v k).data.lookup "ROW_INDEX".toList = some (.int k) := by
  have hparent : ("ROW_INDEX" : String).toList ≠ "PARENT_ROW_NUM".toList := by decide
  cases hn : c.rowNumber with
  | none => simp only [forRow, hn, Record.lookup_insert_self]
  | some n =>
    simp only [forRow, hn, Record.lookup_insert_of_ne _ hparent, Record.lookup_insert_self]

variable {c v}

theorem lookup_forRow_parent {n : Int} (hn : c.rowNumber = some n) :
    (c.forRow v k).data.lookup "PARENT_ROW_NUM".toList = some (.int n) := by
  simp only [forRow, hn, Record.lookup_insert_self]

/-- Under a name that no position takes stands what the row has, or else what was there. -/
theorem lookup_forRow (hv : ((rowRecord v).map Prod.fst).Nodup) (hnumber : name ≠ "ROW_NUM".toList)
    (hindex : name ≠ "ROW_INDEX".toList)
    (hparent : name = "PARENT_ROW_NUM".toList → c.rowNumber = none) :
    (c.forRow v k).data.lookup name = ((rowRecord v).lookup name).or (c.data.lookup name) := by
  rw [← Record.lookup_update c.data hv]
  cases hn : c.rowNumber with
  | none =>
    simp only [forRow, hn, Record.lookup_insert_of_ne _ hindex,
      Record.lookup_insert_of_ne _ hnumber]
  | some n =>
    have hne : name ≠ "PARENT_ROW_NUM".toList := by
      intro heq
      rw [hparent heq] at hn
      cases hn
    simp only [forRow, hn, Record.lookup_insert_of_ne _ hne, Record.lookup_insert_of_ne _ hindex,
      Record.lookup_insert_of_ne _ hnumber]

end Row

/-! ## A chain of rows -/

/-- The context of the last of some rows, each inside the one before it. -/
def forRows (c : Context) (rows : List (Value × Int)) : Context :=
  rows.foldl (fun c row => c.forRow row.1 row.2) c

/-- What the last of the rows that have the name holds under it. -/
def innermost? (rows : List (Value × Int)) (name : Text) : Option Value :=
  rows.reverse.findSome? fun row => (rowRecord row.1).lookup name

/-- No record of the rows has a name twice. -/
def HaveDistinctNames (rows : List (Value × Int)) : Prop :=
  ∀ row ∈ rows, ((rowRecord row.1).map Prod.fst).Nodup

variable {rows outer : List (Value × Int)} {row : Value × Int}

theorem forRows_append : c.forRows (outer ++ rows) = (c.forRows outer).forRows rows :=
  List.foldl_append

theorem innermost?_concat :
    innermost? (outer ++ [row]) name =
      ((rowRecord row.1).lookup name).or (innermost? outer name) := by
  rw [innermost?, List.reverse_append, List.findSome?_append]
  simp [innermost?]

/-- The number of the row that a context was opened for last. -/
theorem rowNumber_forRows :
    (c.forRows rows).rowNumber = (rows.getLast?.map fun row => row.2 + 1).or c.rowNumber := by
  induction rows using List.reverseRecOn with
  | nil => rfl
  | append_singleton outer row ih =>
    rw [forRows_append, List.getLast?_concat]
    rfl

/-- Under a name that is no position's stands what the innermost row has, or else what was there. -/
theorem lookup_forRows (hrows : HaveDistinctNames rows) (hnumber : name ≠ "ROW_NUM".toList)
    (hindex : name ≠ "ROW_INDEX".toList) (hparent : name ≠ "PARENT_ROW_NUM".toList) :
    (c.forRows rows).data.lookup name = (innermost? rows name).or (c.data.lookup name) := by
  induction rows using List.reverseRecOn with
  | nil => rfl
  | append_singleton outer row ih =>
    have hstep : (c.forRows (outer ++ [row])).data.lookup name =
        ((rowRecord row.1).lookup name).or ((c.forRows outer).data.lookup name) := by
      rw [forRows_append]
      exact lookup_forRow row.2 (hrows row (by simp)) hnumber hindex fun h => absurd h hparent
    have houter : HaveDistinctNames outer := fun r hr => hrows r (List.mem_append_left _ hr)
    rw [hstep, ih houter, innermost?_concat, Option.or_assoc]

end Context

/-! ## Contexts in memory -/

/-- Records, each known by its place. -/
abbrev Memory := List Record

namespace Memory

/-- Makes a new place for a record. -/
def make (r : Record) : StateM Memory Nat :=
  modifyGet fun m => (m.length, m ++ [r])

/-- The record at a place. -/
def load (place : Nat) : StateM Memory Record := do
  return (← get).getD place []

/-- Writes a value under a name of the record at a place. -/
def write (place : Nat) (name : Text) (v : Value) : StateM Memory Unit :=
  modify fun m => m.modify place (Record.insert · name v)

variable {m : Memory} {r : Record} {place : Nat}

theorem run_make : (make r).run m = pure (m.length, m ++ [r]) := rfl

theorem run_load : (load place).run m = pure (m.getD place [], m) := rfl

/-- Writing to the record made last leaves those before it as they are. -/
theorem run_write_last {name : Text} {v : Value} (h : place = m.length) :
    (write place name v).run (m ++ [r]) = pure ((), m ++ [r.insert name v]) := by
  subst h
  have hmodify : (m ++ [r]).modify m.length (Record.insert · name v) = m ++ [r.insert name v] := by
    simp [List.modify_eq_take_cons_drop]
  exact congrArg (Prod.mk ()) hmodify

end Memory

namespace Context

/-- A context whose data and record stand in memory. -/
structure Stored where
  /-- The place of the data in scope. -/
  data : Nat
  /-- The place of the record in scope. -/
  record : Nat
  fieldTypes : List (Text × Text) := []
  rowNumber : Option Int := none

namespace Stored

/-- The context that is read from memory. -/
def read (m : Memory) (c : Stored) : Context where
  data := m.getD c.data []
  fieldTypes := c.fieldTypes
  record := m.getD c.record []
  rowNumber := c.rowNumber

/-- The memory has the places of the context. -/
structure IsWithin (m : Memory) (c : Stored) : Prop where
  data : c.data < m.length
  record : c.record < m.length

/-- Opens the context of one record of a section, at a position from 0. -/
def forRow (c : Stored) (record : Value) (index : Int) : StateM Memory Stored := do
  let own ← Memory.make (rowRecord record)
  let data ← Memory.make ((← Memory.load c.data).update (← Memory.load own))
  Memory.write data "ROW_NUM" (.int (index + 1))
  Memory.write data "ROW_INDEX" (.int index)
  if let some n := c.rowNumber then
    Memory.write data "PARENT_ROW_NUM" (.int n)
  return { data, record := own, fieldTypes := c.fieldTypes, rowNumber := some (index + 1) }

/-- Opens a context for each row, each inside the one before it, and gives the last. -/
def forRows (c : Stored) (rows : List (Value × Int)) : StateM Memory Stored :=
  rows.foldlM (fun c row => c.forRow row.1 row.2) c

variable {m : Memory} {c : Stored}

/-- What comes into memory later is not seen by a context. -/
theorem IsWithin.read_append (h : c.IsWithin m) (added : Memory) :
    c.read (m ++ added) = c.read m := by
  simp only [read, List.getD_eq_getElem?_getD, List.getElem?_append_left h.data,
    List.getElem?_append_left h.record]

theorem IsWithin.run_forRow (h : c.IsWithin m) (v : Value) (k : Int) :
    (c.forRow v k).run m =
      pure ({ data := m.length + 1, record := m.length, fieldTypes := c.fieldTypes,
              rowNumber := some (k + 1) },
        m ++ [rowRecord v, ((c.read m).forRow v k).data]) := by
  have hown : (m ++ [rowRecord v]).getD m.length [] = rowRecord v := by simp
  have hdata : (m ++ [rowRecord v]).getD c.data [] = m.getD c.data [] := by
    simp [List.getD_eq_getElem?_getD, List.getElem?_append_left h.data]
  -- The positions are written to the joined data, which is the last record of the memory by then.
  simp only [forRow, StateT.run_bind, Memory.run_make, Memory.run_load, pure_bind, hown, hdata,
    Memory.run_write_last rfl]
  cases hn : c.rowNumber with
  | none => simp [Context.forRow, read, hn]
  | some n =>
    simp only [StateT.run_bind, Memory.run_write_last rfl, pure_bind]
    simp [Context.forRow, read, hn]

/-- A row context that is opened in memory reads as the row context of what is read, and all that
was in memory stays. -/
theorem IsWithin.forRow (h : c.IsWithin m) (v : Value) (k : Int) :
    ∃ c' added, (c.forRow v k).run m = pure (c', m ++ added) ∧ c'.IsWithin (m ++ added) ∧
      c'.read (m ++ added) = (c.read m).forRow v k := by
  refine ⟨_, _, h.run_forRow v k, ⟨by simp, by simp⟩, ?_⟩
  simp [read, Context.forRow]

theorem IsWithin.forRows (h : c.IsWithin m) (rows : List (Value × Int)) :
    ∃ c' added, (c.forRows rows).run m = pure (c', m ++ added) ∧ c'.IsWithin (m ++ added) ∧
      c'.read (m ++ added) = (c.read m).forRows rows := by
  induction rows generalizing c m with
  | nil => exact ⟨c, [], by simp [Stored.forRows], by simpa using h, by simp [Context.forRows]⟩
  | cons row rest ih =>
    obtain ⟨c₁, added₁, hrun₁, hwithin₁, hread₁⟩ := h.forRow row.1 row.2
    obtain ⟨c₂, added₂, hrun₂, hwithin₂, hread₂⟩ := ih hwithin₁
    have hrun : (c.forRows (row :: rest)).run m = pure (c₂, m ++ (added₁ ++ added₂)) := by
      rw [Stored.forRows, List.foldlM_cons, StateT.run_bind, hrun₁, pure_bind,
        ← List.append_assoc]
      exact hrun₂
    refine ⟨c₂, added₁ ++ added₂, hrun, ?_, ?_⟩
    · rw [← List.append_assoc]
      exact hwithin₂
    · rw [← List.append_assoc, hread₂, hread₁]
      rfl

/-- A context of a chain reads the same when the contexts inside it have been opened. -/
theorem IsWithin.read_forRows (h : c.IsWithin m) (inner rest : List (Value × Int)) :
    let opened := (c.forRows inner).run m
    opened.1.read opened.2 = (c.read m).forRows inner ∧
      opened.1.read ((c.forRows (inner ++ rest)).run m).2 = (c.read m).forRows inner := by
  obtain ⟨c₁, added₁, hrun₁, hwithin₁, hread₁⟩ := h.forRows inner
  obtain ⟨c₂, added₂, hrun₂, -, -⟩ := hwithin₁.forRows rest
  have hrun : (c.forRows (inner ++ rest)).run m = pure (c₂, m ++ added₁ ++ added₂) := by
    rw [Stored.forRows, List.foldlM_append, StateT.run_bind]
    exact (congrArg (· >>= _) hrun₁).trans hrun₂
  intro opened
  have hopened : opened = (c₁, m ++ added₁) := hrun₁
  rw [hopened, hrun]
  exact ⟨hread₁, (hwithin₁.read_append added₂).trans hread₁⟩

end Stored

/-! ## The last of a chain, and those before it -/

/-- What is in scope in the context of a row that stands in outer rows. -/
structure IsScoped (base : Context) (outer : List (Value × Int)) (row : Value × Int) (c : Context) :
    Prop where
  number : c.resolve "ROW_NUM" = .ok (.int (row.2 + 1))
  index : c.resolve "ROW_INDEX" = .ok (.int row.2)
  /-- The number of the row around this one. -/
  parent : ∀ around ∈ outer.getLast?, c.resolve "PARENT_ROW_NUM" = .ok (.int (around.2 + 1))
  /-- A name that no position takes means what the innermost row with the name says, also where
  that is null, and without such a row what the base says. -/
  named : ∀ name : Text, name ≠ [] → '.' ∉ name → name ≠ "ROW_NUM".toList →
    name ≠ "ROW_INDEX".toList → (name = "PARENT_ROW_NUM".toList → outer = []) →
    c.resolve name = (innermost? (outer ++ [row]) name).elim (base.resolve name) .ok
  record : c.record = rowRecord row.1

theorem isScoped_forRows {base : Context} {outer : List (Value × Int)} {row : Value × Int}
    (hbase : base.rowNumber = none) (h : HaveDistinctNames (outer ++ [row])) :
    base.IsScoped outer row (base.forRows (outer ++ [row])) := by
  have hrow : ((rowRecord row.1).map Prod.fst).Nodup := h row (by simp)
  have hlast : base.forRows (outer ++ [row]) = (base.forRows outer).forRow row.1 row.2 := forRows_append
  constructor
  case number => rw [resolve_name (by decide) (by decide), hlast, lookup_forRow_number]; rfl
  case index => rw [resolve_name (by decide) (by decide), hlast, lookup_forRow_index]; rfl
  case parent =>
    intro around haround
    have hnumber : (base.forRows outer).rowNumber = some (around.2 + 1) := by
      rw [rowNumber_forRows, Option.mem_def.1 haround]
      rfl
    rw [resolve_name (by decide) (by decide), hlast, lookup_forRow_parent row.2 hnumber]
    rfl
  case named =>
    intro name hne hdot hnumber hindex hparent
    have hlookup : (base.forRows (outer ++ [row])).data.lookup name =
        (innermost? (outer ++ [row]) name).or (base.data.lookup name) := by
      by_cases hp : name = "PARENT_ROW_NUM".toList
      · obtain rfl := hparent hp
        have hnone : innermost? [] name = none := rfl
        rw [innermost?_concat, hnone, Option.or_none]
        exact lookup_forRow row.2 hrow hnumber hindex fun _ => hbase
      · exact lookup_forRows h hnumber hindex hp
    rw [resolve_name hne hdot, resolve_name hne hdot, hlookup]
    cases innermost? (outer ++ [row]) name <;> rfl
  case record => rw [hlast]; rfl

/-- **Row contexts are lexically scoped.** In the last of a chain of row contexts over the context of
a merge the positions are those of the last row and of the row around it, and every other name means
what the innermost row with that name says. Each context of the chain is, in memory, what it was when
it was opened, also after those inside it have been opened. -/
theorem forRows_scoped (record system sources : Record) (fieldTypes : List (Text × Text))
    (now : DateTime) {outer : List (Value × Int)} {row : Value × Int}
    (h : HaveDistinctNames (outer ++ [row])) :
    let base := ofSources record system sources fieldTypes now
    base.IsScoped outer row (base.forRows (outer ++ [row])) ∧
      ∀ (m : Memory) (c : Stored), c.IsWithin m → c.read m = base →
        ∀ inner rest, outer ++ [row] = inner ++ rest →
          let opened := (c.forRows inner).run m
          opened.1.read opened.2 = base.forRows inner ∧
            opened.1.read ((c.forRows (outer ++ [row])).run m).2 = base.forRows inner := by
  intro base
  refine ⟨isScoped_forRows rfl h, fun m c hwithin hread inner rest hsplit => ?_⟩
  rw [hsplit, ← hread]
  exact hwithin.read_forRows inner rest

/-- A row whose record takes the name of a position and has a null of its own, and a color in it. -/
theorem forRows_scoped_color :
    let outer := [(Value.record [("ROW_NUM", .text "own"), ("Name", .null)], 1)]
    let row := (Value.text "red", 0)
    let base := ofSources [("Name", .text "deal"), ("Org", .text "x")] [] [] []
      { date := ⟨2024, 3, 1⟩ }
    let last := base.forRows (outer ++ [row])
    HaveDistinctNames (outer ++ [row]) ∧
      last.resolve "ROW_NUM" = .ok (.int 1) ∧ last.resolve "PARENT_ROW_NUM" = .ok (.int 2) ∧
      last.resolve "Name" = .ok .null ∧ last.resolve "Org" = .ok (.text "x") ∧
      last.resolve "value" = .ok (.text "red") ∧
      let c : Stored := { data := 0, record := 1 }
      let m : Memory := [base.data, base.record]
      c.IsWithin m ∧ c.read m = base ∧
        ((c.forRows outer).run m).1.read ((c.forRows (outer ++ [row])).run m).2 =
          base.forRows outer := by
  intro outer row base last
  have hnames : HaveDistinctNames (outer ++ [row]) := by
    unfold HaveDistinctNames
    decide
  obtain ⟨hscoped, hstored⟩ := forRows_scoped [("Name", .text "deal"), ("Org", .text "x")] [] [] []
    { date := ⟨2024, 3, 1⟩ } hnames
  refine ⟨hnames, hscoped.number, hscoped.parent (.record _, 1) rfl, ?_, ?_, ?_,
    ⟨by decide, by decide⟩, rfl, ?_⟩
  · exact hscoped.named "Name" (by decide) (by decide) (by decide) (by decide) (by decide)
  · exact hscoped.named "Org" (by decide) (by decide) (by decide) (by decide) (by decide)
  · exact hscoped.named "value" (by decide) (by decide) (by decide) (by decide) (by decide)
  · exact (hstored _ { data := 0, record := 1 } ⟨by decide, by decide⟩ rfl outer [row] rfl).2

end Context
end MailMerge
