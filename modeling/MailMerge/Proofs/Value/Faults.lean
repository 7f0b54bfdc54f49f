import MailMerge.Proofs.Number.Rounding
import MailMerge.Value.Coercion
import MailMerge.Value.Path

/-!
# The faults of values

Reading a value fails in four ways only, and each of them is told from the value: a list is entered by
digits that are no index, a whole number is too long to be printed, a whole number is too large for a
floating-point value, or a moment without an offset lies on the first day of the calendar.

**`resolve_eq_error_iff`**: a path fails where a list is entered by digits that are no index.

**`toText_eq_error_iff`, `toNumber_eq_error_iff`, `looseEquals_eq_error_iff`**: what cannot be read as a
text or as a number, and what cannot be compared.
-/

namespace MailMerge

/-! ## Failing computations -/

section Computations

variable {ε α β : Type}

theorem bind_eq_error_iff {x : Except ε α} {f : α → Except ε β} {e : ε} :
    x >>= f = .error e ↔ x = .error e ∨ ∃ a, x = .ok a ∧ f a = .error e := by
  cases x with
  | error e' => simp [bind, Except.bind]
  | ok a => simp [bind, Except.bind]

/-- Two computations that may fail with one error only do so together if one of them does. -/
theorem both_eq_error_iff {γ : Type} {x : Except ε α} {y : Except ε β} {g : α → β → γ} {e e' : ε}
    {P Q : Prop} (hx : ∀ e', x = .error e' ↔ e' = e ∧ P) (hy : ∀ e', y = .error e' ↔ e' = e ∧ Q) :
    (do let a ← x; let b ← y; return g a b) = .error e' ↔ e' = e ∧ (P ∨ Q) := by
  cases x with
  | error e₁ =>
    obtain ⟨rfl, hP⟩ := (hx e₁).1 rfl
    simp [bind, Except.bind, hP, eq_comm]
  | ok a =>
    have hP : ¬ P := fun hP => nomatch (hx e).2 ⟨rfl, hP⟩
    simp only [hP, false_or, ← hy]
    cases y <;> simp [bind, Except.bind, pure, Except.pure]

/-- Steps in a row fail at the first of them that does. -/
theorem foldlM_eq_error_iff {f : β → α → Except ε β} {xs : List α} {b : β} {e : ε} :
    xs.foldlM f b = .error e ↔
      ∃ before x after c, xs = before ++ x :: after ∧ before.foldlM f b = .ok c ∧
        f c x = .error e := by
  induction xs generalizing b with
  | nil => simp [pure, Except.pure]
  | cons x xs ih =>
    rw [List.foldlM_cons, bind_eq_error_iff]
    constructor
    · rintro (hx | ⟨b', hx, hxs⟩)
      · exact ⟨[], x, xs, b, rfl, rfl, hx⟩
      · obtain ⟨before, y, after, c, rfl, hc, hy⟩ := ih.1 hxs
        refine ⟨x :: before, y, after, c, rfl, ?_, hy⟩
        rw [List.foldlM_cons, hx]
        exact hc
    · rintro ⟨before, y, after, c, he, hc, hy⟩
      cases before with
      | nil =>
        obtain ⟨rfl, rfl⟩ := List.cons.inj he
        obtain rfl := Except.ok.inj hc
        exact .inl hy
      | cons z before =>
        obtain ⟨rfl, rfl⟩ := List.cons.inj he
        rw [List.foldlM_cons] at hc
        cases hz : f b x with
        | error e' => rw [hz] at hc; cases hc
        | ok b' =>
          rw [hz] at hc
          exact .inr ⟨b', rfl, ih.2 ⟨before, y, after, c, rfl, hc, hy⟩⟩

end Computations

namespace Value

/-! ## Paths -/

/-- Digits that are no index: one of them is no decimal digit, or there are too many of them. -/
def IsOddIndex (name : Text) : Fault → Prop
  | .oddIndex => ∃ c ∈ name, Text.isDecimalDigit c = false
  | .longNumeral => (∀ c ∈ name, Text.isDecimalDigit c) ∧ Numeral.maxDigits < name.length
  | _ => False

theorem mapM_digitValue?_eq_none_iff {name : Text} :
    name.mapM Text.digitValue? = none ↔ ∃ c ∈ name, Text.isDecimalDigit c = false := by
  induction name with
  | nil => simp
  | cons c name ih =>
    rw [List.mapM_cons]
    cases hc : Text.digitValue? c with
    | none => simp [Text.isDecimalDigit, hc]
    | some d =>
      have hd : Text.isDecimalDigit c = true := by simp [Text.isDecimalDigit, hc]
      simp only [Option.bind_eq_bind, Option.bind_some, Option.pure_def, List.mem_cons,
        exists_eq_or_imp, hd, Bool.true_eq_false, false_or, ← ih]
      cases name.mapM Text.digitValue? <;> simp

theorem length_of_mapM_digitValue? {name : Text} {digits : List Nat}
    (h : name.mapM Text.digitValue? = some digits) : digits.length = name.length := by
  induction name generalizing digits with
  | nil => simp_all
  | cons c name ih =>
    rw [List.mapM_cons] at h
    simp only [Option.bind_eq_bind, Option.bind_eq_some_iff, Option.pure_def, Option.some.injEq] at h
    obtain ⟨d, -, ds, hds, rfl⟩ := h
    rw [List.length_cons, List.length_cons, ih hds]

theorem index?_eq_error_iff {name : Text} {f : Fault} :
    index? name = .error f ↔ IsOddIndex name f := by
  unfold index?
  cases h : name.mapM Text.digitValue? with
  | none =>
    have hodd := mapM_digitValue?_eq_none_iff.1 h
    obtain ⟨c, hc, hcd⟩ := id hodd
    cases f <;> simp only [IsOddIndex, Except.error.injEq, reduceCtorEq, false_iff, true_iff]
    · exact hodd
    · exact fun hall => by simpa [hcd] using hall.1 c hc
  | some digits =>
    have hall : ¬ ∃ c ∈ name, Text.isDecimalDigit c = false := by
      rw [← mapM_digitValue?_eq_none_iff, h]
      simp
    have hall' : ∀ c ∈ name, Text.isDecimalDigit c := by simpa using hall
    dsimp only
    rw [length_of_mapM_digitValue? h]
    constructor
    · intro hf
      split at hf
      · cases hf
      · next hlen =>
        obtain rfl := Except.error.inj hf
        exact ⟨hall', Nat.lt_of_not_le hlen⟩
    · intro hodd
      cases f with
      | oddIndex => exact absurd hodd hall
      | longNumeral => exact if_neg (Nat.not_le_of_lt hodd.2)
      | _ => exact hodd.elim

/-- A step into a value is made of digits that are no index into it. -/
def Misleads (name : Text) (v : Value) (f : Fault) : Prop :=
  v.items?.isSome ∧ name ≠ [] ∧ name.all Text.isAnyDigit ∧ IsOddIndex name f

theorem itemAt_eq_error_iff {items : List Value} {name : Text} {f : Fault} :
    itemAt items name = .error f ↔ name ≠ [] ∧ name.all Text.isAnyDigit ∧ IsOddIndex name f := by
  unfold itemAt
  split
  · next h =>
    rw [bind_eq_error_iff, index?_eq_error_iff]
    simp [h, pure, Except.pure]
  · next h => simp_all

theorem step_eq_error_iff {v : Value} {name : Text} {f : Fault} :
    v.step name = .error f ↔ Misleads name v f := by
  cases v with
  | list items => simp [step, itemAt_eq_error_iff, Misleads, items?]
  | tuple items => simp [step, itemAt_eq_error_iff, Misleads, items?]
  | _ => simp [step, Misleads, items?]

/-- A path into a value comes, after some of its steps, to a value that the next step misleads. -/
def Strays (v : Value) (path : Text) (f : Fault) : Prop :=
  ∃ before name after w, Text.splitOn '.' path = before ++ name :: after ∧
    before.foldlM step v = .ok w ∧ Misleads name w f

/-- **A path fails where a list is entered by digits that are no index.** -/
theorem resolve_eq_error_iff {v : Value} {path : Text} {f : Fault} :
    v.resolve path = .error f ↔ v.Strays path f := by
  unfold resolve Strays
  split
  · next hnil =>
    subst hnil
    constructor
    · exact nofun
    · rintro ⟨before, name, after, w, hsplit, -, -, hname, -⟩
      have hmem : name ∈ Text.splitOn '.' [] := by simp [hsplit]
      exact absurd (List.mem_singleton.1 hmem) hname
  · rw [foldlM_eq_error_iff]
    simp only [step_eq_error_iff]

theorem field_eq_error_iff {v : Value} {path : Text} {f : Fault} :
    v.field path = .error f ↔ (∃ entries, v = record entries) ∧ v.Strays path f := by
  cases v <;> simp [field, resolve_eq_error_iff]

/-! ## Printing -/

/-- The whole number has more digits than can be printed. -/
def IsLong (n : Int) : Prop :=
  10 ^ Numeral.maxDigits ≤ n.natAbs

theorem wholeText_eq_error_iff {n : Int} {f : Fault} :
    wholeText n = .error f ↔ f = .longNumeral ∧ IsLong n := by
  unfold wholeText IsLong
  rw [Nat.pow_eq]
  split
  · simp; omega
  · simp [eq_comm]; omega

/-- A whole number that is too long to be printed stands in the value. -/
inductive HoldsLong : Value → Prop
  | int {n : Int} : IsLong n → HoldsLong (int n)
  | list {items : List Value} {v : Value} : v ∈ items → HoldsLong v → HoldsLong (list items)
  | tuple {items : List Value} {v : Value} : v ∈ items → HoldsLong v → HoldsLong (tuple items)
  | record {entries : List (Text × Value)} {e : Text × Value} :
      e ∈ entries → HoldsLong e.2 → HoldsLong (record entries)

theorem holdsLong_int_iff {n : Int} : HoldsLong (int n) ↔ IsLong n :=
  ⟨fun h => by cases h; assumption, .int⟩

theorem holdsLong_list_iff {items : List Value} :
    HoldsLong (list items) ↔ ∃ v ∈ items, HoldsLong v :=
  ⟨fun h => by cases h with | list hv h => exact ⟨_, hv, h⟩, fun ⟨_, hv, h⟩ => .list hv h⟩

theorem holdsLong_tuple_iff {items : List Value} :
    HoldsLong (tuple items) ↔ ∃ v ∈ items, HoldsLong v :=
  ⟨fun h => by cases h with | tuple hv h => exact ⟨_, hv, h⟩, fun ⟨_, hv, h⟩ => .tuple hv h⟩

theorem holdsLong_record_iff {entries : List (Text × Value)} :
    HoldsLong (record entries) ↔ ∃ e ∈ entries, HoldsLong e.2 :=
  ⟨fun h => by cases h with | record he h => exact ⟨_, he, h⟩, fun ⟨_, he, h⟩ => .record he h⟩

mutual

/-- A value cannot be printed if a long number stands in it. -/
theorem print_eq_error_iff {f : Fault} : ∀ v : Value,
    print v = .error f ↔ f = .longNumeral ∧ HoldsLong v
  | int n => by rw [print, wholeText_eq_error_iff, holdsLong_int_iff]
  | list items => by
    rw [print, bind_eq_error_iff, printItems_eq_error_iff items, holdsLong_list_iff]
    simp [pure, Except.pure]
  | tuple items => by
    rw [print, bind_eq_error_iff, printItems_eq_error_iff items, holdsLong_tuple_iff]
    simp [pure, Except.pure]
  | record entries => by
    rw [print, bind_eq_error_iff, printEntries_eq_error_iff entries, holdsLong_record_iff]
    simp [pure, Except.pure]
  | null | unresolved | bool _ | float _ | text _ | date _ | dateTime _ | time _ => by
    rw [print]
    exact iff_of_false nofun (fun h => nomatch h.2)

theorem printItems_eq_error_iff {f : Fault} : ∀ items : List Value,
    printItems items = .error f ↔ f = .longNumeral ∧ ∃ v ∈ items, HoldsLong v
  | [] => by simp [printItems]
  | v :: vs => by
    rw [printItems, both_eq_error_iff (fun _ => print_eq_error_iff v)
      (fun _ => printItems_eq_error_iff vs)]
    simp

theorem printEntries_eq_error_iff {f : Fault} : ∀ entries : List (Text × Value),
    printEntries entries = .error f ↔ f = .longNumeral ∧ ∃ e ∈ entries, HoldsLong e.2
  | [] => by simp [printEntries]
  | (name, v) :: rest => by
    rw [printEntries, both_eq_error_iff (fun _ => print_eq_error_iff v)
      (fun _ => printEntries_eq_error_iff rest)]
    simp

end

/-! ## Texts and numbers -/

/-- The value has no text: a long number stands in it, or it is a float without a fraction that is
long. -/
def IsUnprintable (v : Value) : Prop :=
  HoldsLong v ∨ ∃ x, v = float x ∧ x.isWhole ∧ IsLong x.truncate

theorem plain_eq_error_iff {v : Value} {f : Fault} :
    v.plain = .error f ↔ f = .longNumeral ∧ HoldsLong v := by
  cases v with
  | text _ | date _ | dateTime _ | time _ => exact iff_of_false nofun (fun h => nomatch h.2)
  | _ => exact print_eq_error_iff _

theorem toText_eq_error_iff {v : Value} {f : Fault} :
    v.toText = .error f ↔ f = .longNumeral ∧ v.IsUnprintable := by
  unfold IsUnprintable
  cases v with
  | float x =>
    have hx : ¬ HoldsLong (float x) := nofun
    rw [toText]
    split
    · next h => simp [wholeText_eq_error_iff, hx, h]
    · next h => simp [hx, h]
  | null | unresolved | bool _ | dateTime _ =>
    exact iff_of_false nofun (by rintro ⟨-, h | ⟨_, h, -⟩⟩ <;> cases h)
  | _ => rw [toText, plain_eq_error_iff] <;> simp

/-- The value has no number: it is a whole number that is too large, or a moment without an offset on
the first day of the calendar. -/
inductive HasNoNumber : Value → Fault → Prop
  | int {n : Int} : Binary64.firstLarge ≤ n.natAbs → HasNoNumber (int n) .largeNumber
  | date {d : Date} : d.ordinal ≤ 1 → HasNoNumber (date d) .beforeCalendar
  | dateTime {m : DateTime} : m.offset = none → m.date.ordinal ≤ 1 →
      HasNoNumber (dateTime m) .beforeCalendar

theorem milliseconds?_eq_none_iff {m : DateTime} :
    m.milliseconds? = none ↔ m.offset = none ∧ m.date.ordinal ≤ 1 := by
  unfold DateTime.milliseconds?
  cases m.offset <;> simp

theorem elim_eq_error_iff {α : Type} {o : Option α} {e f : Fault} :
    o.elim (.error e) .ok = (.error f : Except Fault α) ↔ o = none ∧ e = f := by
  cases o <;> simp

theorem toNumber_eq_error_iff {v : Value} {f : Fault} :
    v.toNumber = .error f ↔ v.HasNoNumber f := by
  cases v with
  | int n =>
    rw [toNumber, elim_eq_error_iff, Binary64.ofInt?_eq_none_iff]
    exact ⟨fun ⟨h, he⟩ => he ▸ .int h, fun h => by cases h with | int h => exact ⟨h, rfl⟩⟩
  | date d =>
    rw [toNumber, elim_eq_error_iff, milliseconds?_eq_none_iff]
    exact ⟨fun ⟨h, he⟩ => he ▸ .date h.2, fun h => by cases h with | date h => exact ⟨⟨rfl, h⟩, rfl⟩⟩
  | dateTime m =>
    rw [toNumber, elim_eq_error_iff, milliseconds?_eq_none_iff]
    exact ⟨fun ⟨h, he⟩ => he ▸ .dateTime h.1 h.2, fun h => by
      cases h with | dateTime ho h => exact ⟨⟨ho, h⟩, rfl⟩⟩
  | text t =>
    rw [toNumber]
    split <;> exact iff_of_false nofun nofun
  | _ => exact iff_of_false nofun nofun

/-! ## Equality -/

/-- Two values cannot be compared by their texts: one is a date or a moment, the other one has no
text. -/
def Incomparable (v w : Value) : Prop :=
  v.isDated ∧ w.IsUnprintable ∨ w.isDated ∧ v.IsUnprintable

theorem not_isUnprintable_of_isDated {v : Value} (h : v.isDated) : ¬ v.IsUnprintable := by
  rintro (hlong | ⟨x, rfl, -⟩)
  · cases hlong <;> cases h
  · cases h

theorem not_isUnprintable_of_isMissing {v : Value} (h : v.isMissing) : ¬ v.IsUnprintable := by
  rintro (hlong | ⟨x, rfl, -⟩)
  · cases hlong <;> cases h
  · cases h

theorem isUnprintable_unbool {v : Value} :
    (looseEquals.unbool v).IsUnprintable ↔ v.IsUnprintable := by
  cases v with
  | bool b =>
    refine iff_of_false ?_ ?_
    · rintro (hlong | ⟨x, h, -⟩)
      · have hsmall : ¬ IsLong (if b then 1 else 0) := by
          have hten : 1 < 10 ^ Numeral.maxDigits := Nat.one_lt_pow (by decide) (by decide)
          unfold IsLong
          cases b with
          | true => simp; omega
          | false => simp
        exact hsmall (holdsLong_int_iff.1 hlong)
      · cases h
    · rintro (hlong | ⟨x, h, -⟩)
      · cases hlong
      · cases h
  | _ => rfl

/-- Comparing by texts fails if one of the values has none. -/
theorem looseEquals_dated_eq_error_iff {v w : Value} {f : Fault} :
    (if v.isDated || w.isDated then do
        let l ← (looseEquals.unbool v).toText
        let r ← (looseEquals.unbool w).toText
        return l == r
      else .ok (v.equal w) : Except Fault Bool) = .error f ↔
      f = .longNumeral ∧ v.Incomparable w := by
  unfold Incomparable
  split
  · next h =>
    rw [both_eq_error_iff (fun _ => toText_eq_error_iff) (fun _ => toText_eq_error_iff),
      isUnprintable_unbool, isUnprintable_unbool]
    have hv := @not_isUnprintable_of_isDated v
    have hw := @not_isUnprintable_of_isDated w
    rw [Bool.or_eq_true] at h
    tauto
  · next h => simp_all

theorem looseEquals_eq_error_iff {v w : Value} {f : Fault} :
    v.looseEquals w = .error f ↔ f = .longNumeral ∧ v.Incomparable w := by
  have hdated : ∀ u : Value, u.isDated → u.isMissing = false ∧ u.number? = none ∧
      ∀ t, u ≠ text t := by
    intro u hu
    cases u <;> simp_all [isDated, isMissing, number?]
  have hnone : (¬ v.isDated ∨ ¬ w.IsUnprintable) → (¬ w.isDated ∨ ¬ v.IsUnprintable) →
      ¬ (f = .longNumeral ∧ v.Incomparable w) := by
    unfold Incomparable
    tauto
  unfold looseEquals
  split
  · next hv hw =>
    exact iff_of_false nofun (hnone (.inr (not_isUnprintable_of_isMissing hw))
      (.inr (not_isUnprintable_of_isMissing hv)))
  · next hv hw =>
    exact iff_of_false nofun (hnone (.inl fun hd => by simp [hdated v hd] at hv)
      (.inr (not_isUnprintable_of_isMissing hv)))
  · next hv hw =>
    exact iff_of_false nofun (hnone (.inr (not_isUnprintable_of_isMissing hw))
      (.inl fun hd => by simp [hdated w hd] at hw))
  · split
    · next hv _ hw =>
      exact iff_of_false nofun (hnone (.inl fun hd => by simp [hdated _ hd] at hv)
        (.inl fun hd => by simp [hdated _ hd] at hw))
    · next hv _ _ =>
      exact iff_of_false nofun (hnone (.inl fun hd => by simp [hdated _ hd] at hv) (.inl nofun))
    · next _ _ hw =>
      exact iff_of_false nofun (hnone (.inl nofun) (.inl fun hd => by simp [hdated _ hd] at hw))
    · exact looseEquals_dated_eq_error_iff

end Value
end MailMerge
