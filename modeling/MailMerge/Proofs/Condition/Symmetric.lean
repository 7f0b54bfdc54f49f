import MailMerge.Proofs.Condition.Spelling
import MailMerge.Proofs.Value.Faults
import MailMerge.Proofs.Value.Inherited
import Mathlib.Data.List.Nodup
import Mathlib.Data.List.Perm.Subperm

/-!
# Conditions with their sides exchanged

Two values are equal in both orders or in none, as long as no name comes twice in a record: two records
of one size, of which the first finds an equal entry for each of its own in the second, have the same
names, so the second finds its entries in the first as well.

The sides of a condition that is a comparison are literals without parts and the values at the end of
paths, so no name comes twice in them if none does in the data. Hence `==` does not depend on the order
of its sides, up to the fault that is met first where neither side has a value, and `!=` is its negation.

**`looseEquals_comm`**: equality in conditions, also where it has no answer.

**`equality_symmetric`**: equality of values and of the sides of a condition.
-/

namespace MailMerge

/-! ## Numbers -/

theorem Binary64.equal_comm (x y : Binary64) : x.equal y = y.equal x := by
  cases x with
  | nan => cases y <;> rfl
  | infinity n =>
    cases y with
    | nan => rfl
    | infinity m => cases n <;> cases m <;> rfl
    | finite m b => cases n <;> cases m <;> rfl
  | finite n a =>
    cases y with
    | nan => rfl
    | infinity m => cases n <;> cases m <;> rfl
    | finite m b =>
      show (some (compare (signedUnits n a) (signedUnits m b)) == some .eq) =
        (some (compare (signedUnits m b) (signedUnits n a)) == some .eq)
      rw [Bool.eq_iff_iff, beq_iff_eq, beq_iff_eq, Option.some.injEq, Option.some.injEq,
        compare_eq_iff_eq, compare_eq_iff_eq, eq_comm]

theorem Number.equal_comm (n m : Number) : n.equal m = m.equal n := by
  cases n with
  | whole n =>
    cases m with
    | whole m => exact Bool.beq_comm
    | float y => rfl
  | float x =>
    cases m with
    | whole m => rfl
    | float y => exact Binary64.equal_comm x y

/-! ## Moments -/

theorem DateTime.same_comm (m n : DateTime) : m.same n = n.same m := by
  rw [Bool.eq_iff_iff]
  simp only [same, Bool.and_eq_true, beq_iff_eq]
  exact and_congr eq_comm eq_comm

theorem TimeOfDay.same_comm (s t : TimeOfDay) : s.same t = t.same s := by
  rw [Bool.eq_iff_iff]
  simp only [same, Bool.and_eq_true, beq_iff_eq]
  exact and_congr eq_comm eq_comm

namespace Value

/-! ## Names -/

mutual

/-- No name comes twice in a record of the value, at any depth. -/
def HasDistinctNames : Value → Prop
  | list items => AllHaveDistinctNames items
  | tuple items => AllHaveDistinctNames items
  | record entries => (entries.map Prod.fst).Nodup ∧ EntriesHaveDistinctNames entries
  | _ => True

/-- No name comes twice in a record of any of the values. -/
def AllHaveDistinctNames : List Value → Prop
  | [] => True
  | v :: vs => v.HasDistinctNames ∧ AllHaveDistinctNames vs

/-- No name comes twice in a record of the values under the names. -/
def EntriesHaveDistinctNames : List (Text × Value) → Prop
  | [] => True
  | (_, v) :: rest => v.HasDistinctNames ∧ EntriesHaveDistinctNames rest

end

theorem allHaveDistinctNames_iff {items : List Value} :
    AllHaveDistinctNames items ↔ ∀ v ∈ items, v.HasDistinctNames := by
  induction items with
  | nil => simp [AllHaveDistinctNames]
  | cons v vs ih => simp [AllHaveDistinctNames, ih]

theorem entriesHaveDistinctNames_iff {entries : List (Text × Value)} :
    EntriesHaveDistinctNames entries ↔ ∀ e ∈ entries, e.2.HasDistinctNames := by
  induction entries with
  | nil => simp [EntriesHaveDistinctNames]
  | cons e rest ih => simp [EntriesHaveDistinctNames, ih]

theorem inherited_hasDistinctNames : Inherited HasDistinctNames := by
  constructor
  · exact trivial
  · intro v items h hi
    cases v with
    | list items' | tuple items' =>
      obtain rfl := Option.some.inj hi
      exact allHaveDistinctNames_iff.1 h
    | _ => cases hi
  · intro entries h
    exact entriesHaveDistinctNames_iff.1 h.2

/-! ## Records -/

theorem lookup_of_mem {entries : List (Text × Value)} (h : (entries.map Prod.fst).Nodup)
    {e : Text × Value} (he : e ∈ entries) : entries.lookup e.1 = some e.2 := by
  induction entries with
  | nil => cases he
  | cons f rest ih =>
    rw [List.map_cons, List.nodup_cons] at h
    rcases List.mem_cons.1 he with rfl | he
    · exact List.lookup_cons_self
    · have hne : e.1 ≠ f.1 := by
        intro heq
        apply h.1
        rw [← heq]
        exact List.mem_map_of_mem he
      rw [List.lookup_cons, beq_eq_false_iff_ne.2 hne]
      exact ih h.2 he

theorem equalEntries_iff {xs ys : List (Text × Value)} :
    equalEntries xs ys ↔ ∀ e ∈ xs, ∃ w, ys.lookup e.1 = some w ∧ e.2.equal w := by
  induction xs with
  | nil => simp [equalEntries]
  | cons e xs ih =>
    obtain ⟨name, v⟩ := e
    simp [equalEntries, ih, Option.any_eq_true]

/-- A record that has an equal entry for each entry of another one of its size has no other entries. -/
theorem equalEntries_swap {xs ys : List (Text × Value)} (hxs : (xs.map Prod.fst).Nodup)
    (hys : (ys.map Prod.fst).Nodup) (hlength : xs.length = ys.length)
    (hswap : ∀ e ∈ xs, ∀ f ∈ ys, e.2.equal f.2 → f.2.equal e.2) (h : equalEntries xs ys) :
    equalEntries ys xs := by
  have hfind := equalEntries_iff.1 h
  have hsub : xs.map Prod.fst ⊆ ys.map Prod.fst := by
    intro name hname
    obtain ⟨e, he, rfl⟩ := List.mem_map.1 hname
    obtain ⟨w, hw, -⟩ := hfind e he
    obtain ⟨before, after, rfl, -⟩ := List.lookup_eq_some_iff.1 hw
    simp
  have hperm : (xs.map Prod.fst).Perm (ys.map Prod.fst) := by
    apply (hxs.subperm hsub).perm_of_length_le
    simp [hlength]
  apply equalEntries_iff.2
  intro f hf
  obtain ⟨e, he, hef⟩ := List.mem_map.1 (hperm.mem_iff.2 (List.mem_map_of_mem hf))
  obtain ⟨w, hw, hequal⟩ := hfind e he
  rw [hef, lookup_of_mem hys hf] at hw
  obtain rfl := Option.some.inj hw
  refine ⟨e.2, ?_, hswap e he f hf hequal⟩
  rw [← hef]
  exact lookup_of_mem hxs he

/-! ## All values -/

/-- A number is equal to the values that stand for an equal number. -/
theorem equal_of_number? {v : Value} {n : Number} (h : v.number? = some n) (w : Value) :
    v.equal w = w.number?.any n.equal := by
  cases v with
  | bool b | int k | float x =>
    obtain rfl := Option.some.inj h
    rw [equal]
  | _ => cases h

theorem equal_of_number?_right {w : Value} {m : Number} (h : w.number? = some m) (v : Value) :
    v.equal w = v.number?.any fun n => n.equal m := by
  cases hv : v.number? with
  | some n => rw [equal_of_number? hv, h, Option.any_some, Option.any_some]
  | none =>
    cases w with
    | bool b | int k | float x =>
      cases v with
      | bool _ | int _ | float _ => cases hv
      | _ => simp only [equal, Option.any_none]
    | _ => cases h

theorem equal_comm_of_number? {v : Value} {n : Number} (h : v.number? = some n) (w : Value) :
    v.equal w = w.equal v := by
  have hswap : n.equal = fun m => m.equal n := by
    funext m
    exact Number.equal_comm n m
  rw [equal_of_number? h, equal_of_number?_right h, hswap]

/-- Records are equal in both orders, if the values in them are. -/
theorem equal_record_comm {xs ys : List (Text × Value)} (hxs : (xs.map Prod.fst).Nodup)
    (hys : (ys.map Prod.fst).Nodup) (hvalues : ∀ e ∈ xs, ∀ f ∈ ys, e.2.equal f.2 = f.2.equal e.2) :
    (record xs).equal (record ys) = (record ys).equal (record xs) := by
  rw [equal, equal, Bool.eq_iff_iff]
  simp only [Bool.and_eq_true, beq_iff_eq]
  constructor
  · intro h
    refine ⟨h.1.symm, equalEntries_swap hxs hys h.1 ?_ h.2⟩
    intro e he f hf hef
    rwa [← hvalues e he f hf]
  · intro h
    refine ⟨h.1.symm, equalEntries_swap hys hxs h.1 ?_ h.2⟩
    intro f hf e he hfe
    rwa [hvalues e he f hf]

mutual

/-- **Equality is symmetric.** -/
theorem equal_comm : ∀ v : Value, v.HasDistinctNames → ∀ w : Value, w.HasDistinctNames →
    v.equal w = w.equal v
  | bool _, _, w, _ | int _, _, w, _ | float _, _, w, _ => equal_comm_of_number? rfl w
  | null, _, w, _ | unresolved, _, w, _ => by
    cases w with
    | bool _ | int _ | float _ => exact (equal_comm_of_number? rfl _).symm
    | _ => simp only [equal]
  | text s, _, w, _ => by
    cases w with
    | bool _ | int _ | float _ => exact (equal_comm_of_number? rfl _).symm
    | text t =>
      rw [equal, equal]
      exact Bool.beq_comm
    | _ => simp only [equal]
  | date d, _, w, _ => by
    cases w with
    | bool _ | int _ | float _ => exact (equal_comm_of_number? rfl _).symm
    | date e =>
      rw [equal, equal]
      exact Bool.beq_comm
    | _ => simp only [equal]
  | dateTime m, _, w, _ => by
    cases w with
    | bool _ | int _ | float _ => exact (equal_comm_of_number? rfl _).symm
    | dateTime n =>
      rw [equal, equal]
      exact m.same_comm n
    | _ => simp only [equal]
  | time s, _, w, _ => by
    cases w with
    | bool _ | int _ | float _ => exact (equal_comm_of_number? rfl _).symm
    | time t =>
      rw [equal, equal]
      exact s.same_comm t
    | _ => simp only [equal]
  | list xs, hv, w, hw => by
    cases w with
    | bool _ | int _ | float _ => exact (equal_comm_of_number? rfl _).symm
    | list ys =>
      rw [equal, equal]
      exact equalItems_comm xs hv ys hw
    | _ => simp only [equal]
  | tuple xs, hv, w, hw => by
    cases w with
    | bool _ | int _ | float _ => exact (equal_comm_of_number? rfl _).symm
    | tuple ys =>
      rw [equal, equal]
      exact equalItems_comm xs hv ys hw
    | _ => simp only [equal]
  | record xs, hv, w, hw => by
    cases w with
    | bool _ | int _ | float _ => exact (equal_comm_of_number? rfl _).symm
    | record ys =>
      exact equal_record_comm hv.1 hw.1 fun e he f hf =>
        entries_equal_comm xs hv.2 e he f.2 (entriesHaveDistinctNames_iff.1 hw.2 f hf)
    | _ => simp only [equal]

theorem equalItems_comm : ∀ xs : List Value, AllHaveDistinctNames xs → ∀ ys : List Value,
    AllHaveDistinctNames ys → equalItems xs ys = equalItems ys xs
  | [], _, ys, _ => by cases ys <;> simp only [equalItems]
  | x :: xs, hx, ys, hy => by
    cases ys with
    | nil => simp only [equalItems]
    | cons y ys =>
      rw [equalItems, equalItems, equal_comm x hx.1 y hy.1, equalItems_comm xs hx.2 ys hy.2]

theorem entries_equal_comm : ∀ xs : List (Text × Value), EntriesHaveDistinctNames xs →
    ∀ e ∈ xs, ∀ w : Value, w.HasDistinctNames → e.2.equal w = w.equal e.2
  | [], _, e, he, _, _ => by cases he
  | (name, v) :: xs, h, e, he, w, hw => by
    rcases List.mem_cons.1 he with rfl | he
    · exact equal_comm v h.1 w hw
    · exact entries_equal_comm xs h.2 e he w hw

end

/-! ## Equality in conditions -/

/-- A date or a moment has a text. -/
theorem exists_toText_of_isDated {v : Value} (h : v.isDated) :
    ∃ t, (looseEquals.unbool v).toText = .ok t := by
  cases v with
  | date d => exact ⟨_, rfl⟩
  | dateTime m => exact ⟨_, rfl⟩
  | _ => cases h

/-- Comparing by texts does not depend on the order, for one of the two has a text. -/
theorem texts_comm {v w : Value} (h : v.isDated || w.isDated) :
    (do
      let l ← (looseEquals.unbool v).toText
      let r ← (looseEquals.unbool w).toText
      return l == r : Except Fault Bool) =
    (do
      let l ← (looseEquals.unbool w).toText
      let r ← (looseEquals.unbool v).toText
      return l == r) := by
  rcases Bool.or_eq_true_iff.1 h with hv | hw
  · obtain ⟨t, ht⟩ := exists_toText_of_isDated hv
    rw [ht]
    cases (looseEquals.unbool w).toText with
    | error f => rfl
    | ok u => exact congrArg Except.ok Bool.beq_comm
  · obtain ⟨u, hu⟩ := exists_toText_of_isDated hw
    rw [hu]
    cases (looseEquals.unbool v).toText with
    | error f => rfl
    | ok t => exact congrArg Except.ok Bool.beq_comm

theorem others_comm {v w : Value} (hequal : v.equal w = w.equal v) :
    (if v.isDated || w.isDated then do
        let l ← (looseEquals.unbool v).toText
        let r ← (looseEquals.unbool w).toText
        return l == r
      else .ok (v.equal w) : Except Fault Bool) =
    if w.isDated || v.isDated then do
        let l ← (looseEquals.unbool w).toText
        let r ← (looseEquals.unbool v).toText
        return l == r
      else .ok (w.equal v) := by
  rw [Bool.or_comm w.isDated]
  by_cases h : v.isDated || w.isDated
  · rw [if_pos h, if_pos h, texts_comm h]
  · rw [if_neg h, if_neg h, hequal]

/-- **Equality in conditions is symmetric**, also where the values cannot be compared. -/
theorem looseEquals_comm {v w : Value} (hv : v.HasDistinctNames) (hw : w.HasDistinctNames) :
    v.looseEquals w = w.looseEquals v := by
  unfold looseEquals
  cases v.isMissing with
  | true => cases w.isMissing <;> rfl
  | false =>
    cases w.isMissing with
    | true => rfl
    | false =>
      have hothers := others_comm (equal_comm v hv w hw)
      cases hn : v.number? with
      | some n =>
        cases hm : w.number? with
        | some m => exact congrArg Except.ok (Number.equal_comm n m)
        | none =>
          cases w with
          | text t => rfl
          | _ => exact hothers
      | none =>
        cases hm : w.number? with
        | some m =>
          cases v with
          | text t => rfl
          | _ => exact hothers
        | none => exact hothers

end Value
end MailMerge

namespace MailMerge.Condition

open Value (HasDistinctNames)

variable {fields : Fields} {l r : Operand}

/-! ## The sides of a comparison -/

/-- The sides of a comparison come from tokens. -/
theorem Denotes.exists_operands {p : Phrase} {ts : List Token} {c : Condition} (h : Denotes p ts c)
    {op : Comparison} (hc : c = .compare op l r) :
    (∃ t, Operand.ofToken? t = some l) ∧ ∃ u, Operand.ofToken? u = some r := by
  induction h with
  | alternative _ ih | term _ ih | atom _ ih | parens _ ih => exact ih hc
  | operand => rename_i a ha; cases a <;> cases hc
  | compare op ha hb =>
    cases hc
    exact ⟨⟨_, ha⟩, ⟨_, hb⟩⟩
  | _ => cases hc

theorem exists_operands_of_parse {t : Text} {op : Comparison} (h : parse t = .ok (.compare op l r)) :
    (∃ t, Operand.ofToken? t = some l) ∧ ∃ u, Operand.ofToken? u = some r := by
  obtain ⟨ts, -, hread⟩ := parse_eq_ok_iff.1 h
  exact (denotes_of_readOr (ofTokens_eq_ok_iff.1 hread).2).exists_operands rfl

/-- An operand of a condition has no name twice if the values of the fields have none. -/
theorem yields_value (hfields : ∀ path, Yields HasDistinctNames (fields path))
    (hl : ∃ t, Operand.ofToken? t = some l) : Yields HasDistinctNames (l.value fields) := by
  cases l with
  | literal v =>
    obtain ⟨t, ht⟩ := hl
    have hv : v.HasDistinctNames := by
      cases t with
      | number n => cases n <;> cases ht <;> exact trivial
      | string | bool | null => cases ht; exact trivial
      | _ => cases ht
    exact Yields.pure hv
  | field path =>
    refine (hfields path).bind ?_
    intro v hv
    split
    · exact Yields.pure trivial
    · exact Yields.pure hv

/-! ## Exchanged sides -/

/-- Two values or the faults of two operands, in the order in which they are met. -/
theorem compare_equal_comm (hl : Yields HasDistinctNames (l.value fields))
    (hr : Yields HasDistinctNames (r.value fields)) :
    (do let x ← l.value fields; let y ← r.value fields; compareValues .equal x y) =
      (do let x ← r.value fields; let y ← l.value fields; compareValues .equal x y) ∨
    ∃ f g, l.value fields = .error f ∧ r.value fields = .error g := by
  cases hx : l.value fields with
  | error f =>
    cases hy : r.value fields with
    | error g => exact .inr ⟨f, g, rfl, rfl⟩
    | ok y => exact .inl rfl
  | ok x =>
    cases hy : r.value fields with
    | error g => exact .inl rfl
    | ok y => exact .inl (Value.looseEquals_comm (hl x hx) (hr y hy))

/-- **Equality does not depend on the order of the two sides.** Neither does a condition that asks for
it, except that where neither side has a value each order meets the fault of its own first side; and the
condition that asks for the contrary has the contrary answer. -/
theorem equality_symmetric :
    (∀ {v w : Value}, v.HasDistinctNames → w.HasDistinctNames → v.looseEquals w = w.looseEquals v) ∧
    ∀ {fields : Fields}, (∀ path, Yields HasDistinctNames (fields path)) →
      ∀ {l r : Operand} {s t u : Text}, parse (Text.trim s) = .ok (.compare .equal l r) →
        parse (Text.trim t) = .ok (.compare .equal r l) →
        parse (Text.trim u) = .ok (.compare .unequal l r) →
        (evaluate fields s = evaluate fields t ∨ ∃ f g, l.value fields = .error f ∧ r.value fields = .error g ∧
          evaluate fields s = .error (.fault f) ∧ evaluate fields t = .error (.fault g)) ∧
        evaluate fields u = Bool.not <$> evaluate fields s := by
  constructor
  · intro v w hv hw
    exact Value.looseEquals_comm hv hw
  · intro fields hfields l r s t u hs ht hu
    obtain ⟨hl, hr⟩ := exists_operands_of_parse hs
    rw [evaluate_compare hs, evaluate_compare ht, evaluate_compare hu]
    constructor
    · rcases compare_equal_comm (yields_value hfields hl) (yields_value hfields hr) with h | ⟨f, g, hf, hg⟩
      · exact .inl (congrArg _ h)
      · refine .inr ⟨f, g, hf, hg, ?_, ?_⟩
        · rw [hf]
          rfl
        · rw [hg]
          rfl
    · cases l.value fields with
      | error f => rfl
      | ok x =>
        cases r.value fields with
        | error g => rfl
        | ok y =>
          show Except.mapError _ (x.looseEquals y >>= fun b => .ok !b) = _ <$> (x.looseEquals y).mapError _
          cases x.looseEquals y <;> rfl

/-- Two lists with the same record, its names in another order, and a condition that compares them. -/
theorem equality_symmetric_lists :
    let fields := Value.field (.record [
      ("a", .list [.int 1, .record [("x", .text "2"), ("y", .null)]]),
      ("b", .list [.bool true, .record [("y", .null), ("x", .text "2")]])])
    (evaluate fields "a == b" = evaluate fields "b == a" ∨ ∃ f g, (Operand.field "a").value fields = .error f ∧
        (Operand.field "b").value fields = .error g ∧ evaluate fields "a == b" = .error (.fault f) ∧
        evaluate fields "b == a" = .error (.fault g)) ∧
      evaluate fields "a != b" = Bool.not <$> evaluate fields "a == b" := by
  intro fields
  have ha : Spells (.name "a") "a" := .name ⟨'a', [], [], by decide, by simp, by simp, rfl⟩ (by decide +kernel)
  have hb : Spells (.name "b") "b" := .name ⟨'b', [], [], by decide, by simp, by simp, rfl⟩ (by decide +kernel)
  have hfields : ∀ path, Yields HasDistinctNames (fields path) := by
    apply Value.inherited_hasDistinctNames.yields_field
    simp only [HasDistinctNames, Value.AllHaveDistinctNames, Value.EntriesHaveDistinctNames]
    decide
  exact equality_symmetric.2 hfields (parse_compare .equal ha hb rfl rfl) (parse_compare .equal hb ha rfl rfl)
    (parse_compare .unequal ha hb rfl rfl)

end MailMerge.Condition
