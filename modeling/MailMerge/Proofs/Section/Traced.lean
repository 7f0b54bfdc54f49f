import MailMerge.Proofs.Merge.Causes
import MailMerge.Proofs.Merge.Results
import MailMerge.Section.Binding
import MailMerge.Section.Expansion

/-!
# Runs and the sections they bind

Binding a section reports nothing: either it has records, or there is an error that says why not.

A traced run is a step of a merge together with the sections that it has bound, each with the scope in
which it was bound: the context of the run, and the records around the section. A section over a
collection that lies in a replayed record is looked up in that record alone. A run ends with the error
of the binding that fails.

**`bound_alone`**: a section that looks into the record in scope only is bound to the list there.

**`Traced.ends`**: no run goes on after a binding that fails.

**`run_records`**: what a section is bound to is settled by its scope.
-/

namespace MailMerge.Section

/-! ## What a section is bound to -/

/-- The records that a section is bound to. -/
def bound (opener : Marker) (c : Context) (recordOnly : Bool) :
    Except MergeError (List Value) :=
  match candidates opener c recordOnly with
  | .error f => .error (.fault f)
  | .ok vs =>
    match vs.findSome? records? with
    | some records => .ok records
    | none => .error (.missingSection opener.label (lackOf vs recordOnly))

theorem bind_eq {ι : Type} (opener : Marker) (c : Context) (recordOnly : Bool) :
    (bind opener c recordOnly : Merging ι (List Value)) =
      match bound opener c recordOnly with
      | .error e => .fail e
      | .ok records => pure records := by
  unfold Section.bind bound
  cases candidates opener c recordOnly with
  | error f => rfl
  | ok vs =>
    show (pure vs >>= _) = _
    rw [pure_bind]
    dsimp only
    cases vs.findSome? records? <;> rfl

theorem records?_eq_some_iff {v : Value} {items : List Value} :
    records? v = some items ↔ v.items? = some items ∧ items ≠ [] := by
  unfold records?
  simp [Option.filter_eq_some_iff]

theorem records?_eq_none_iff {v : Value} :
    records? v = none ↔ ∀ items, v.items? = some items → items = [] := by
  unfold records?
  simp [Option.filter_eq_none_iff]

/-- **What a section finds in the record in scope alone**: the list there, if it has items. -/
theorem bound_alone (opener : Marker) (c : Context) :
    bound opener c true =
      match (Value.record c.record).resolve opener.argument with
      | .error f => .error (.fault f)
      | .ok v =>
        match records? v with
        | some records => .ok records
        | none => .error (.missingSection opener.label (lackOf [v] true)) := by
  have hcandidates : candidates opener c true =
      (fun v => [v]) <$> (Value.record c.record).resolve opener.argument := by
    unfold candidates
    cases (Value.record c.record).resolve opener.argument <;> rfl
  unfold bound
  rw [hcandidates]
  cases (Value.record c.record).resolve opener.argument with
  | error f => rfl
  | ok v =>
    have hfirst : [v].findSome? records? = records? v := by
      rw [List.findSome?_cons]
      cases records? v <;> rfl
    show (match [v].findSome? records? with
      | some records => Except.ok records
      | none => Except.error (MergeError.missingSection opener.label (lackOf [v] true))) = _
    rw [hfirst]

open Merging (Fails Gives)

/-! ## Scopes -/

/-- Where a section stands in a run. -/
inductive Scope where
  /-- In no section of the run. A nested run is inside a replayed record from the start. -/
  | start (c : Context) (nested : Bool)
  /-- In a section, while it is replayed for a record at a position from 0. -/
  | within (outer : Scope) (record : Value) (index : Nat)

namespace Scope

/-- The context in the scope. -/
def context : Scope → Context
  | start c _ => c
  | within outer record index => outer.context.forRow record index

/-- The innermost record that is replayed, if there is one. -/
def replayed? : Scope → Option Record
  | start c nested => if nested then some c.record else none
  | within _ record _ => some (Context.rowRecord record)

/-- There is a record that is replayed. -/
def isReplayed (s : Scope) : Bool :=
  s.replayed?.isSome

theorem isReplayed_start (c : Context) (nested : Bool) : (start c nested).isReplayed = nested := by
  cases nested <;> rfl

/-- The record that is replayed is the one in scope. -/
theorem record_context {s : Scope} {record : Record} (h : s.replayed? = some record) :
    s.context.record = record := by
  cases s with
  | start c nested =>
    cases nested with
    | true => exact Option.some.inj h
    | false => cases h
  | within outer value index => exact Option.some.inj h

end Scope

/-! ## Bindings -/

/-- A section that is bound in a run. -/
structure Binding where
  opener : Marker
  scope : Scope

namespace Binding

/-- The record that alone counts for the section: the one that is replayed, unless the section is over
a named source. -/
def record? (b : Binding) : Option Record :=
  if b.opener.fromSource then none else b.scope.replayed?

/-- What the section is bound to. -/
def outcome (b : Binding) : Except MergeError (List Value) :=
  bound b.opener b.scope.context b.record?.isSome

theorem isSome_record? (b : Binding) :
    b.record?.isSome = isRecordOnly b.opener b.scope.isReplayed := by
  unfold record? isRecordOnly Scope.isReplayed
  cases b.opener.fromSource with
  | true => exact (Bool.and_false _).symm
  | false => exact (Bool.and_true _).symm

end Binding

/-! ## Traced runs -/

/-- A step with the sections that are bound in it. -/
structure Traced (ι α : Type) where
  bindings : List Binding
  run : Merging ι α
  /-- A binding that fails ends the run. -/
  ends : ∀ b ∈ bindings, ∀ e, b.outcome = .error e → run.Fails e

namespace Traced

variable {ι κ α β : Type}

/-- A step that binds no section. -/
def step (x : Merging ι α) : Traced ι α where
  bindings := []
  run := x
  ends := nofun

/-- The bindings of a step that comes after another one, if that has a result. -/
def bindingsAfter (x : Merging ι α) (f : α → Traced ι β) : List Binding :=
  match x with
  | Except.ok (a, _) => (f a).bindings
  | Except.error _ => []

/-- A step, and another one that goes on from its result. -/
def andThen (x : Traced ι α) (f : α → Traced ι β) : Traced ι β where
  bindings := x.bindings ++ bindingsAfter x.run f
  run := x.run >>= fun a => (f a).run
  ends := by
    intro b hb e he
    rw [Merging.fails_bind_iff]
    rcases List.mem_append.1 hb with hb | hb
    · exact .inl (x.ends b hb e he)
    · unfold bindingsAfter at hb
      split at hb
      · next a log hx => exact .inr ⟨a, ⟨log, hx⟩, (f a).ends b hb e he⟩
      · cases hb

instance : Monad (Traced ι) where
  pure a := step (pure a)
  bind := andThen

/-- The step with its images handed over to a function of the result. -/
def mapImages (x : Traced ι α) (f : α → List ι → List κ) : Traced κ α where
  bindings := x.bindings
  run := x.run.mapImages f
  ends := fun b hb e he => Merging.fails_mapImages_iff.2 (x.ends b hb e he)

/-- The records that a section in a scope is replayed for: those that it is bound to. -/
def records (settings : Settings) (s : Scope) (opener : Marker) : Traced ι (List Value) where
  bindings := [⟨opener, s⟩]
  run := do
    let records ← (match Binding.outcome ⟨opener, s⟩ with
      | .error e => .fail e
      | .ok records => pure records : Merging ι (List Value))
    if settings.maxSectionRows < records.length then
      Merging.warn (.manyRecords opener.label records.length settings.maxSectionRows)
    return records
  ends := by
    intro b hb e he
    obtain rfl := List.mem_singleton.1 hb
    rw [he]
    rfl

/-- The step with its images placed among the paragraphs of its result. -/
def claimed (x : Traced ImageRequest α) (paragraphs : α → List (Path × Paragraph)) :
    Traced PendingImage α :=
  x.mapImages fun a requests => requests.map (PendingImage.claim (paragraphs a))

/-- The step with its images placed in the one paragraph that it makes. -/
def here (x : Traced ImageRequest Paragraph) : Traced PendingImage Paragraph :=
  x.mapImages fun _ requests => requests.map fun request => ⟨request, some []⟩

/-- The step with its images seen from a list in which the result stands at an index. -/
def under (index : Nat) (x : Traced PendingImage α) : Traced PendingImage α :=
  x.mapImages fun _ images => images.map (PendingImage.under index)

/-- The step with its images seen from a list with more nodes in front. -/
def shifted (count : Nat) (x : Traced PendingImage α) : Traced PendingImage α :=
  x.mapImages fun _ images => images.map (PendingImage.shift count)

/-- Two steps that make nodes, one list after the other. -/
def followedBy (x y : Traced PendingImage (List Node)) : Traced PendingImage (List Node) := do
  let first ← x
  let second ← y.shifted first.length
  return first ++ second

/-- A step for each item of a list, each making one node. -/
def forEach (f : β → Traced PendingImage α) (items : List β) : Traced PendingImage (List α) :=
  items.zipIdx.mapM fun (x, i) => (f x).under i

/-! ## Runs of steps -/

section Runs

variable {settings : Settings}

theorem run_bind (x : Traced ι α) (f : α → Traced ι β) :
    (x >>= f).run = x.run >>= fun a => (f a).run := rfl

theorem run_step (x : Merging ι α) : (step x).run = x := rfl

theorem run_claimed (x : Traced ImageRequest α) (paragraphs : α → List (Path × Paragraph)) :
    (x.claimed paragraphs).run = x.run.claimed paragraphs := rfl

theorem run_here (x : Traced ImageRequest Paragraph) : x.here.run = x.run.here := rfl

theorem run_under (index : Nat) (x : Traced PendingImage α) :
    (x.under index).run = x.run.under index := rfl

theorem run_shifted (count : Nat) (x : Traced PendingImage α) :
    (x.shifted count).run = x.run.shifted count := rfl

theorem run_followedBy (x y : Traced PendingImage (List Node)) :
    (x.followedBy y).run = x.run.followedBy y.run := rfl

theorem run_mapM (f : β → Traced ι α) (xs : List β) :
    (xs.mapM f).run = xs.mapM fun x => (f x).run := by
  have hloop : ∀ done : List α, (List.mapM.loop f xs done).run =
      List.mapM.loop (fun x => (f x).run) xs done := by
    induction xs with
    | nil => exact fun _ => rfl
    | cons x xs ih =>
      intro done
      show ((f x).run >>= fun a => (List.mapM.loop f xs (a :: done)).run) = _
      exact bind_congr fun a => ih (a :: done)
  exact hloop []

theorem run_forEach (f : β → Traced PendingImage α) (items : List β) :
    (forEach f items).run = Merging.forEach (fun x => (f x).run) items :=
  run_mapM _ _

/-- **What a section is bound to is settled by its scope.** -/
theorem run_records (s : Scope) (opener : Marker) :
    (records settings s opener : Traced ι (List Value)).run =
      Section.records settings opener s.context s.isReplayed := by
  unfold Section.records
  rw [bind_eq, ← Binding.isSome_record? ⟨opener, s⟩]
  rfl

end Runs

end Traced

end MailMerge.Section
