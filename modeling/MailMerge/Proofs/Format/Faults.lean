import MailMerge.Format.Basic
import MailMerge.Proofs.Value.Faults

/-!
# The outcome of formatting

A value has a text in every format that is known, or formatting fails: a whole number is too large for a
floating-point value, a text is a numeral or a moment too long or too far out to be read, more places are
asked for than can be written, or a number is too long for plain text. Each failure is told from the format
and the value. A format that is not known is an error of its own kind.

**`format_outcome`**: when the format is reported as unknown, which values fail in a format that is known,
and which are passed through.
-/

namespace MailMerge

theorem map_eq_error_iff {ε α β : Type} {g : α → β} {x : Except ε α} {e : ε} :
    g <$> x = .error e ↔ x = .error e := by
  cases x <;> simp [Functor.map, Except.map]

/-- What goes on after a reading, that may find nothing, fails if the reading does, or with what it
finds. -/
theorem read_eq_error_iff {ε α β : Type} {read : Except ε (Option α)} {write : Option α → Except ε β}
    {e : ε} : read >>= write = .error e ↔
      read = .error e ∨ read = .ok none ∧ write none = .error e ∨
        ∃ a, read = .ok (some a) ∧ write (some a) = .error e := by
  rw [bind_eq_error_iff]
  refine or_congr_right ?_
  constructor
  · rintro ⟨o, ho, h⟩
    cases o with
    | none => exact .inl ⟨ho, h⟩
    | some a => exact .inr ⟨a, ho, h⟩
  · rintro (⟨ho, h⟩ | ⟨a, ho, h⟩)
    · exact ⟨none, ho, h⟩
    · exact ⟨some a, ho, h⟩

namespace Value

/-! ## Plain text -/

mutual

/-- A value cannot be written in JSON if a long number stands in it. -/
theorem toJson_eq_error_iff {f : Fault} (level : Nat) : ∀ v : Value,
    toJson level v = .error f ↔ f = .longNumeral ∧ HoldsLong v
  | int n => by rw [toJson, wholeText_eq_error_iff, holdsLong_int_iff]
  | list items => by
    rw [toJson, bind_eq_error_iff, jsonItems_eq_error_iff (level + 1) items, holdsLong_list_iff]
    simp [pure, Except.pure]
  | tuple items => by
    rw [toJson, bind_eq_error_iff, jsonItems_eq_error_iff (level + 1) items, holdsLong_tuple_iff]
    simp [pure, Except.pure]
  | record entries => by
    rw [toJson, bind_eq_error_iff, jsonEntries_eq_error_iff (level + 1) entries, holdsLong_record_iff]
    simp [pure, Except.pure]
  | null | unresolved | bool _ | float _ | text _ | date _ | dateTime _ | time _ => by
    rw [toJson]
    exact iff_of_false nofun (fun h => nomatch h.2)

theorem jsonItems_eq_error_iff {f : Fault} (level : Nat) : ∀ items : List Value,
    jsonItems level items = .error f ↔ f = .longNumeral ∧ ∃ v ∈ items, HoldsLong v
  | [] => by simp [jsonItems]
  | v :: vs => by
    rw [jsonItems, both_eq_error_iff (fun _ => toJson_eq_error_iff level v)
      (fun _ => jsonItems_eq_error_iff level vs)]
    simp

theorem jsonEntries_eq_error_iff {f : Fault} (level : Nat) : ∀ entries : List (Text × Value),
    jsonEntries level entries = .error f ↔ f = .longNumeral ∧ ∃ e ∈ entries, HoldsLong e.2
  | [] => by simp [jsonEntries]
  | (name, v) :: rest => by
    rw [jsonEntries, both_eq_error_iff (fun _ => toJson_eq_error_iff level v)
      (fun _ => jsonEntries_eq_error_iff level rest)]
    simp

end

/-- The value has no plain text: it is a whole number that is too long to be printed, a list in which
such a value stands, or a record in which such a number does. -/
inductive IsUnwritable : Value → Prop
  | int {n : Int} : IsLong n → IsUnwritable (int n)
  | float {x : Binary64} : x.isWhole → IsLong x.truncate → IsUnwritable (float x)
  | list {items : List Value} {v : Value} : v ∈ items → IsUnwritable v → IsUnwritable (list items)
  | tuple {items : List Value} {v : Value} : v ∈ items → IsUnwritable v → IsUnwritable (tuple items)
  | record {entries : List (Text × Value)} : HoldsLong (record entries) →
      IsUnwritable (record entries)

theorem isUnwritable_list_iff {items : List Value} :
    IsUnwritable (list items) ↔ ∃ v ∈ items, IsUnwritable v :=
  ⟨fun h => by cases h with | list hv h => exact ⟨_, hv, h⟩, fun ⟨_, hv, h⟩ => .list hv h⟩

theorem isUnwritable_tuple_iff {items : List Value} :
    IsUnwritable (tuple items) ↔ ∃ v ∈ items, IsUnwritable v :=
  ⟨fun h => by cases h with | tuple hv h => exact ⟨_, hv, h⟩, fun ⟨_, hv, h⟩ => .tuple hv h⟩

mutual

theorem toPlain_eq_error_iff {f : Fault} : ∀ v : Value,
    toPlain v = .error f ↔ f = .longNumeral ∧ IsUnwritable v
  | int n => by
    rw [toPlain, wholeText_eq_error_iff]
    exact and_congr_right fun _ => ⟨.int, fun h => by cases h; assumption⟩
  | float x => by
    rw [toPlain]
    split
    · next hx =>
      rw [wholeText_eq_error_iff]
      exact and_congr_right fun _ => ⟨.float hx, fun h => by cases h; assumption⟩
    · next hx => exact iff_of_false nofun fun ⟨_, h⟩ => by cases h; contradiction
  | list items => by
    rw [toPlain, bind_eq_error_iff, plainItems_eq_error_iff items, isUnwritable_list_iff]
    simp [pure, Except.pure]
  | tuple items => by
    rw [toPlain, bind_eq_error_iff, plainItems_eq_error_iff items, isUnwritable_tuple_iff]
    simp [pure, Except.pure]
  | record entries => by
    rw [toPlain, toJson_eq_error_iff]
    exact and_congr_right fun _ => ⟨.record, fun h => by cases h; assumption⟩
  | null | unresolved | bool _ | text _ | date _ | dateTime _ | time _ => by
    rw [toPlain]
    exact iff_of_false nofun (fun h => nomatch h.2)

theorem plainItems_eq_error_iff {f : Fault} : ∀ items : List Value,
    plainItems items = .error f ↔ f = .longNumeral ∧ ∃ v ∈ items, IsUnwritable v
  | [] => by simp [plainItems]
  | v :: vs => by
    rw [plainItems, both_eq_error_iff (fun _ => toPlain_eq_error_iff v)
      (fun _ => plainItems_eq_error_iff vs)]
    simp

end

/-! ## Amounts -/

theorem amount?_eq_error_iff {v : Value} {f : Fault} : v.amount? = .error f ↔
    f = .largeNumber ∧ ∃ n, v = int n ∧ Binary64.firstLarge ≤ n.natAbs := by
  cases v with
  | int n =>
    rw [amount?]
    have helim : ∀ o : Option Binary64,
        (o.elim (.error .largeNumber) (.ok ∘ some) : Except Fault (Option Binary64)) = .error f ↔
          f = .largeNumber ∧ o = none := by
      intro o
      cases o <;> simp [eq_comm]
    rw [helim, Binary64.ofInt?_eq_none_iff]
    simp
  | _ => exact iff_of_false nofun (by rintro ⟨-, n, h, -⟩; cases h)

/-- The value cannot be written as an amount: it is a whole number that is too large for a
floating-point value, or it is no amount and has no plain text either. -/
inductive LacksAmount (v : Value) : Fault → Prop
  | large {n : Int} : v = int n → Binary64.firstLarge ≤ n.natAbs → LacksAmount v .largeNumber
  | plain : v.amount? = .ok none → v.IsUnwritable → LacksAmount v .longNumeral

theorem lacksAmount_iff {v : Value} {f : Fault} : v.LacksAmount f ↔
    v.amount? = .error f ∨ v.amount? = .ok none ∧ v.toPlain = .error f := by
  rw [amount?_eq_error_iff, toPlain_eq_error_iff]
  constructor
  · intro h
    cases h with
    | large hv hn => exact .inl ⟨rfl, _, hv, hn⟩
    | plain hnone hplain => exact .inr ⟨hnone, rfl, hplain⟩
  · rintro (⟨rfl, n, hv, hn⟩ | ⟨hnone, rfl, hplain⟩)
    · exact .large hv hn
    · exact .plain hnone hplain

theorem not_lacksAmount_text {t : Text} {f : Fault} : ¬ (text t).LacksAmount f := by
  intro h
  cases h with
  | large hv => cases hv
  | plain _ hplain => cases hplain

theorem withAmount_eq_error_iff {v : Value} {write : Binary64 → Text} {f : Fault} :
    v.withAmount write = .error f ↔ v.LacksAmount f := by
  rw [withAmount, read_eq_error_iff, lacksAmount_iff]
  simp [pure, Except.pure]

/-! ## Moments -/

/-- The text stands for a moment that cannot be told: it is a numeral of too many milliseconds, or the
moment lies outside the calendar in universal time. -/
inductive HasNoMoment (t : Text) : Fault → Prop
  | long : slashedDate? t = none → t.all Text.isDecimalDigit → Numeral.maxDigits < t.length →
      HasNoMoment t .longNumeral
  | outside {m : DateTime} : slashedDate? t = none →
      ¬ (minEpochDigits ≤ t.length ∧ t.all Text.isDecimalDigit) → isoMoment? t = some m →
      m.offset.isSome → m.toUniversal? = none → HasNoMoment t .outsideCalendar

theorem settle_eq_error_iff {m : DateTime} {f : Fault} : settle m = .error f ↔
    f = .outsideCalendar ∧ m.offset.isSome ∧ m.toUniversal? = none := by
  unfold settle
  cases m.offset with
  | none => simp
  | some offset =>
    rw [elim_eq_error_iff]
    simp [eq_comm, and_comm]

theorem textMoment?_eq_error_iff {t : Text} {f : Fault} :
    textMoment? t = .error f ↔ HasNoMoment t f := by
  unfold textMoment?
  cases hslashed : slashedDate? t with
  | some numbers =>
    refine iff_of_false nofun fun h => ?_
    cases h <;> simp_all
  | none =>
    dsimp only
    by_cases hdigits : minEpochDigits ≤ t.length ∧ t.all Text.isDecimalDigit
    · rw [if_pos hdigits]
      split
      · next hshort =>
        refine iff_of_false nofun fun h => ?_
        cases h with
        | long _ _ hlong => exact absurd hshort (Nat.not_le_of_lt hlong)
        | outside _ hother => exact hother hdigits
      · next hlong =>
        constructor
        · intro h
          obtain rfl := Except.error.inj h
          exact .long hslashed hdigits.2 (Nat.lt_of_not_le hlong)
        · intro h
          cases h with
          | long => rfl
          | outside _ hother => exact absurd hdigits hother
    · rw [if_neg hdigits]
      cases hiso : isoMoment? t with
      | none =>
        refine iff_of_false nofun fun h => ?_
        cases h with
        | long _ hall hlong => exact hdigits ⟨Nat.le_trans (by decide) (Nat.le_of_lt hlong), hall⟩
        | outside _ _ hsome => cases hiso.symm.trans hsome
      | some m =>
        dsimp only
        rw [map_eq_error_iff, settle_eq_error_iff]
        constructor
        · rintro ⟨rfl, hoffset, hnone⟩
          exact .outside hslashed hdigits hiso hoffset hnone
        · intro h
          cases h with
          | long _ hall hlong =>
            exact absurd ⟨Nat.le_trans (by decide) (Nat.le_of_lt hlong), hall⟩ hdigits
          | outside _ _ hsome hoffset hnone =>
            obtain rfl := Option.some.inj (hiso.symm.trans hsome)
            exact ⟨rfl, hoffset, hnone⟩

theorem moment?_eq_error_iff {v : Value} {f : Fault} :
    v.moment? = .error f ↔ ∃ t, v = text t ∧ HasNoMoment (Text.trim t) f := by
  cases v with
  | text t => rw [moment?, textMoment?_eq_error_iff]; simp
  | _ => exact iff_of_false nofun (by rintro ⟨t, h, -⟩; cases h)

/-- The value cannot be written as a moment: it is a text that stands for one that cannot be told, or it
is no moment and has no plain text either. -/
inductive LacksMoment (v : Value) : Fault → Prop
  | text {t : Text} {f : Fault} : v = text t → HasNoMoment (Text.trim t) f → LacksMoment v f
  | plain : v.moment? = .ok none → v.IsUnwritable → LacksMoment v .longNumeral

theorem lacksMoment_iff {v : Value} {f : Fault} : v.LacksMoment f ↔
    v.moment? = .error f ∨ v.moment? = .ok none ∧ v.toPlain = .error f := by
  rw [moment?_eq_error_iff, toPlain_eq_error_iff]
  constructor
  · intro h
    cases h with
    | text hv ht => exact .inl ⟨_, hv, ht⟩
    | plain hnone hplain => exact .inr ⟨hnone, rfl, hplain⟩
  · rintro (⟨t, hv, ht⟩ | ⟨hnone, rfl, hplain⟩)
    · exact .text hv ht
    · exact .plain hnone hplain

theorem withMoment_eq_error_iff {v : Value} {write : DateTime → Text} {f : Fault} :
    Format.withMoment v write = .error f ↔ v.LacksMoment f := by
  rw [Format.withMoment, read_eq_error_iff, lacksMoment_iff]
  simp [pure, Except.pure]

/-! ## Places -/

/-- The value cannot be written with the number of places that the digits say: these are too many to be
read, or they say too many places for an amount, or the value cannot be written as an amount. -/
inductive LacksPlaces (digits : Text) (v : Value) : Fault → Prop
  | long : Numeral.maxDigits < digits.length → LacksPlaces digits v .longNumeral
  | many {x : Binary64} : digits.length ≤ Numeral.maxDigits → v.amount? = .ok (some x) →
      maxPlaces < Numeral.ofDigits (digits.filterMap Text.digitValue?) →
      LacksPlaces digits v .tooManyPlaces
  | amount {f : Fault} : digits.length ≤ Numeral.maxDigits → v.LacksAmount f → LacksPlaces digits v f

theorem formatPlaces_eq_error_iff {digits : Text} {v : Value} {f : Fault} :
    formatPlaces digits v = .error f ↔ v.LacksPlaces digits f := by
  have hthrow : ∀ (p : Prop) [Decidable p] (t : Text),
      (if p then throw .tooManyPlaces else pure t : Except Fault Text) = .error f ↔
        f = .tooManyPlaces ∧ p := by
    intro p _ t
    split
    · next hp => simp [hp, throw, throwThe, MonadExceptOf.throw, eq_comm]
    · next hp => simp [hp, pure, Except.pure]
  unfold formatPlaces
  dsimp only
  by_cases hlong : Numeral.maxDigits < digits.length
  · rw [if_pos hlong]
    constructor
    · intro h
      obtain rfl := Except.error.inj h
      exact .long hlong
    · intro h
      cases h with
      | long => rfl
      | many hshort | amount hshort => exact absurd hlong (Nat.not_lt_of_le hshort)
  · have hshort := Nat.le_of_not_lt hlong
    rw [if_neg hlong]
    simp only [read_eq_error_iff, hthrow]
    rw [← or_assoc, ← lacksAmount_iff]
    constructor
    · rintro (h | ⟨x, hx, rfl, hmax⟩)
      · exact .amount hshort h
      · exact .many hshort hx hmax
    · intro h
      cases h with
      | long h => exact absurd h hlong
      | many _ hx hmax => exact .inr ⟨_, hx, rfl, hmax⟩
      | amount _ h => exact .inl h

end Value

namespace Format

variable {format : Format} {symbol : Text} {v : Value} {f : Fault}

/-! ## Formats -/

/-- The value cannot be written in the format. -/
def Fails (v : Value) (f : Fault) : Format → Prop
  | currency | number | percent => v.LacksAmount f
  | places digits => v.LacksPlaces digits f
  | date | dateTime | time => v.LacksMoment f
  | phone | upper | lower | capitalize | text => f = .longNumeral ∧ v.IsUnwritable
  | yesNo => False

theorem formatCurrency_eq_error_iff : formatCurrency symbol v = .error f ↔ v.LacksAmount f := by
  unfold formatCurrency
  split
  · split
    · exact iff_of_false nofun Value.not_lacksAmount_text
    · exact Value.withAmount_eq_error_iff
  · exact Value.withAmount_eq_error_iff

/-- **The values that cannot be written in a format.** -/
theorem apply_eq_error_iff : format.apply symbol v = .error f ↔ format.Fails v f := by
  cases format with
  | currency => exact formatCurrency_eq_error_iff
  | number | percent => exact Value.withAmount_eq_error_iff
  | places digits => exact Value.formatPlaces_eq_error_iff
  | date | dateTime => exact Value.withMoment_eq_error_iff
  | time =>
    cases v with
    | time t =>
      refine iff_of_false nofun fun h => ?_
      cases h with
      | text hv => cases hv
      | plain _ hplain => cases hplain
    | _ => exact Value.withMoment_eq_error_iff
  | phone | upper | lower | capitalize => exact map_eq_error_iff.trans (Value.toPlain_eq_error_iff v)
  | text => exact Value.toPlain_eq_error_iff v
  | yesNo => exact iff_of_false nofun not_false

/-- The value is no amount, or no moment, where the format asks for one. -/
def PassesThrough (v : Value) : Format → Prop
  | currency => v.amount? = .ok none ∧ ∀ t, v = .text t → amountWithSymbol? t = none
  | number | percent => v.amount? = .ok none
  | places digits => digits.length ≤ Numeral.maxDigits ∧ v.amount? = .ok none
  | date | dateTime | time => v.moment? = .ok none
  | text => True
  | phone | upper | lower | capitalize | yesNo => False

theorem withAmount_of_none {write : Binary64 → Text} (h : v.amount? = .ok none) :
    v.withAmount write = v.toPlain := by
  rw [Value.withAmount, h]
  rfl

theorem withMoment_of_none {write : DateTime → Text} (h : v.moment? = .ok none) :
    withMoment v write = v.toPlain := by
  rw [withMoment, h]
  rfl

/-- **What is no amount or no moment is written in plain text.** -/
theorem apply_of_passesThrough (h : format.PassesThrough v) : format.apply symbol v = v.toPlain := by
  cases format with
  | currency =>
    show formatCurrency symbol v = _
    unfold formatCurrency
    split
    · next t =>
      rw [h.2 t rfl]
      exact withAmount_of_none h.1
    · exact withAmount_of_none h.1
  | number | percent => exact withAmount_of_none h
  | places digits =>
    rw [apply, formatPlaces, if_neg (Nat.not_lt_of_le h.1), h.2]
    rfl
  | date | dateTime => exact withMoment_of_none h
  | time =>
    cases v with
    | time t => rfl
    | _ => exact withMoment_of_none h
  | text => rfl
  | _ => cases h

/-! ## The format that a text names -/

/-- The format that is meant, plain text where none is named; none if it is not known. -/
def chosen? (name : Option Text) : Option Format :=
  match name.getD [] with
  | [] => some text
  | c :: rest => ofName? (c :: rest)

theorem chosen?_eq_none_iff {name : Option Text} :
    chosen? name = none ↔ ∃ n, name = some n ∧ n ≠ [] ∧ ofName? n = none := by
  cases name with
  | none => simp [chosen?]
  | some n => cases n <;> simp [chosen?]

end Format

namespace Value

variable {v : Value} {symbol : Text} {name : Option Text}

theorem format_of_chosen {format : Format} (h : Format.chosen? name = some format) :
    v.format symbol name = (format.apply symbol v).mapError .fault := by
  unfold Format.chosen? at h
  unfold Value.format
  split
  · next hname =>
    rw [hname] at h
    obtain rfl := Option.some.inj h
    rfl
  · next hname =>
    rw [hname] at h
    dsimp only at h
    rw [h]

theorem format_of_unknown {n : Text} (hn : n ≠ []) (h : Format.ofName? n = none) :
    v.format symbol (some n) = .error (.unknown n) := by
  obtain ⟨c, rest, rfl⟩ := List.exists_cons_of_ne_nil hn
  unfold Value.format
  dsimp only [Option.getD_some]
  rw [h]

theorem mapError_fault_eq_error_iff {x : Except Fault Text} {e : FormatError} :
    x.mapError FormatError.fault = .error e ↔ ∃ f, e = .fault f ∧ x = .error f := by
  cases x with
  | ok t => simp [Except.mapError]
  | error f => simp [Except.mapError, eq_comm]

end Value
end MailMerge
