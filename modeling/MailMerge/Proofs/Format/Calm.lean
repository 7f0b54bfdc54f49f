import MailMerge.Context
import MailMerge.Field.Substitution
import MailMerge.Proofs.Text.Calm
import MailMerge.Proofs.Value.Inherited
import MailMerge.Section.Binding

/-!
# Calm data

A value is calm if all texts in it are, so that nothing that is written of it begins a marker. Paths
into calm data lead to calm values, and the contexts of the records of a section are calm again.
Numbers, dates and times are written without a brace, so whatever is written of a calm value, in any
format of the catalogue, is calm.

**`yields_resolve`**: a path into a calm value leads to a calm value.

**`Context.Calm.forRow`**: a calm record makes a calm context.

**`yields_toPlain`**: a calm value is written calmly in plain text.

**`yields_apply`**: so it is in each format.
-/

namespace MailMerge

section

/-! ## Values -/

mutual

/-- All texts in the value are calm, and names have no opening braces. -/
def Value.Calm : Value → Prop
  | .text t => Text.Calm t
  | .list items => Value.AllCalm items
  | .tuple items => Value.AllCalm items
  | .record entries => Record.Calm entries
  | _ => True

/-- The values are calm. -/
def Value.AllCalm : List Value → Prop
  | [] => True
  | v :: vs => v.Calm ∧ Value.AllCalm vs

/-- The names have no opening braces, and the values are calm. -/
def Record.Calm : List (Text × Value) → Prop
  | [] => True
  | (name, v) :: rest => Text.Unopened name ∧ v.Calm ∧ Record.Calm rest

end

mutual

instance Value.decidableCalm : (v : Value) → Decidable v.Calm
  | .text t => inferInstanceAs (Decidable (Text.Calm t))
  | .list items => Value.decidableAllCalm items
  | .tuple items => Value.decidableAllCalm items
  | .record entries => Record.decidableCalm entries
  | .null | .unresolved | .bool _ | .int _ | .float _ | .date _ | .dateTime _ | .time _ =>
    .isTrue trivial

instance Value.decidableAllCalm : (items : List Value) → Decidable (Value.AllCalm items)
  | [] => .isTrue trivial
  | v :: vs =>
    have := Value.decidableCalm v
    have := Value.decidableAllCalm vs
    inferInstanceAs (Decidable (_ ∧ _))

instance Record.decidableCalm : (r : List (Text × Value)) → Decidable (Record.Calm r)
  | [] => .isTrue trivial
  | (_, v) :: rest =>
    have := Value.decidableCalm v
    have := Record.decidableCalm rest
    inferInstanceAs (Decidable (_ ∧ _ ∧ _))

end

namespace Value

variable {v : Value} {items : List Value}

theorem allCalm_iff : AllCalm items ↔ ∀ v ∈ items, v.Calm := by
  induction items with
  | nil => simp [AllCalm]
  | cons v vs ih => simp [AllCalm, ih]

theorem items?_calm (h : v.Calm) (hi : v.items? = some items) : AllCalm items := by
  cases v with
  | list items' | tuple items' =>
    obtain rfl := Option.some.inj hi
    exact h
  | _ => cases hi

end Value

theorem Record.calm_iff {r : Record} :
    Record.Calm r ↔ ∀ e ∈ r, Text.Unopened e.1 ∧ e.2.Calm := by
  induction r with
  | nil => simp [Record.Calm]
  | cons e rest ih => simp [Record.Calm, ih, and_assoc]

/-! ## Paths -/

namespace Value

theorem inherited_calm : Inherited Calm := by
  constructor
  · exact trivial
  · intro v items h hi
    exact allCalm_iff.1 (items?_calm h hi)
  · intro entries h e he
    exact (Record.calm_iff.1 h e he).2

/-- **A path into a calm value leads to a calm value.** -/
theorem yields_resolve {v : Value} (h : v.Calm) (path : Text) : Yields Calm (v.resolve path) :=
  inherited_calm.yields_resolve h path

end Value

/-! ## Contexts -/

namespace Record

theorem Calm.insert {r : Record} {name : Text} {v : Value} (h : Record.Calm r)
    (hn : Text.Unopened name) (hv : v.Calm) : Record.Calm (r.insert name v) := by
  induction r with
  | nil => exact ⟨hn, hv, trivial⟩
  | cons e rest ih =>
    unfold Record.insert
    split
    · exact ⟨h.1, hv, h.2.2⟩
    · exact ⟨h.1, h.2.1, ih h.2.2⟩

theorem Calm.update {r entries : Record} (h : Record.Calm r) (he : Record.Calm entries) :
    Record.Calm (r.update entries) := by
  unfold Record.update
  induction entries generalizing r with
  | nil => exact h
  | cons e rest ih => exact ih (h.insert he.1 he.2.1) he.2.2

end Record

namespace Context

/-- The data in scope and the record in scope are calm. -/
structure Calm (c : Context) : Prop where
  data : Record.Calm c.data
  record : Record.Calm c.record

variable {c : Context}

theorem Calm.yields_resolve (h : c.Calm) (path : Text) : Yields Value.Calm (c.resolve path) :=
  Value.yields_resolve (v := .record c.data) h.data path

theorem rowRecord_calm {v : Value} (h : v.Calm) : Record.Calm (rowRecord v) := by
  cases v with
  | record entries => exact h
  | _ => exact ⟨by decide, h, trivial⟩

/-- **A calm record makes a calm context.** -/
theorem Calm.forRow (h : c.Calm) {v : Value} (hv : v.Calm) (index : Int) :
    (c.forRow v index).Calm := by
  have hrow := rowRecord_calm hv
  have hdata : Record.Calm (((c.data.update (rowRecord v)).insert "ROW_NUM" (.int (index + 1))).insert
      "ROW_INDEX" (.int index)) := by
    refine Record.Calm.insert (Record.Calm.insert (h.data.update hrow) ?_ trivial) ?_ trivial
    · decide
    · decide
  refine ⟨?_, hrow⟩
  unfold Context.forRow
  dsimp only
  split
  · exact hdata.insert (by decide) trivial
  · exact hdata

end Context

/-! ## Records of sections -/

namespace Section

variable {c : Context}

theorem yields_candidates (h : c.Calm) (opener : Marker) (recordOnly : Bool) :
    Yields Value.AllCalm (candidates opener c recordOnly) := by
  unfold candidates
  refine (Value.yields_resolve (v := .record c.record) h.record opener.argument).bind fun v hv => ?_
  split
  · exact Yields.pure ⟨hv, trivial⟩
  · exact (h.yields_resolve opener.argument).bind fun w hw => Yields.pure ⟨hv, hw, trivial⟩

theorem records?_calm {v : Value} {items : List Value} (hv : v.Calm)
    (h : records? v = some items) : Value.AllCalm items := by
  obtain ⟨hi, -⟩ := Option.filter_eq_some_iff.1 h
  exact Value.items?_calm hv hi

end Section

end

section

open Text (Calm AllPlain allPlain_ofNat allPlain_padded)

variable {t : Text}

/-! ## Numbers -/

theorem allPlain_groupReversed (h : AllPlain t) : AllPlain (groupReversed t) := by
  fun_induction groupReversed t with
  | case1 a b c d rest ih =>
    simp only [Text.allPlain_cons] at h ih ⊢
    exact ⟨h.1, h.2.1, h.2.2.1, by decide, ih h.2.2.2⟩
  | case2 short => exact h

theorem allPlain_reverse (h : AllPlain t) : AllPlain t.reverse :=
  h.subset (List.reverse_subset.2 (List.Subset.refl t))

theorem allPlain_groupThousands (h : AllPlain t) : AllPlain (groupThousands t) :=
  allPlain_reverse (allPlain_groupReversed (allPlain_reverse h))

theorem allPlain_sign (negative : Bool) : AllPlain (if negative then ['-'] else []) := by
  cases negative <;> decide

namespace Binary64

theorem allPlain_placeText (grouped : Bool) (places scaled : Nat) :
    AllPlain (placeText grouped places scaled) := by
  have hdigits := allPlain_padded (places + 1) scaled
  unfold placeText
  generalize Text.padded (places + 1) scaled = digits at hdigits
  have hwhole := hdigits.subset (List.take_subset (digits.length - places) digits)
  have hshown : AllPlain (if grouped then groupThousands (digits.take (digits.length - places))
      else digits.take (digits.length - places)) := by
    split
    · exact allPlain_groupThousands hwhole
    · exact hwhole
  dsimp only
  split
  · exact hshown
  · exact (hshown.append (by decide)).append (hdigits.subset (List.drop_subset _ digits))

theorem allPlain_fixed (x : Binary64) (grouped : Bool) (places : Nat) :
    AllPlain (x.fixed grouped places) := by
  cases x with
  | nan => exact (by decide : AllPlain "nan".toList)
  | infinity negative =>
    cases negative with
    | false => exact (by decide : AllPlain "inf".toList)
    | true => exact (by decide : AllPlain "-inf".toList)
  | finite negative units =>
    exact (allPlain_sign negative).append (allPlain_placeText grouped places _)

theorem exists_ne_newline_fixed (x : Binary64) (grouped : Bool) (places : Nat) (h : places ≠ 0) :
    ∃ d ∈ x.fixed grouped places, d ≠ '\n' := by
  cases x with
  | nan => exact ⟨'n', by simp [fixed], by decide⟩
  | infinity negative => cases negative <;> exact ⟨'f', by simp [fixed], by decide⟩
  | finite negative units =>
    refine ⟨'.', List.mem_append_right _ ?_, by decide⟩
    unfold placeText
    dsimp only
    rw [if_neg h]
    exact List.mem_append_left _ (List.mem_append_right _ (by decide))

theorem allPlain_layOut (d : Decimal) : AllPlain (layOut d) := by
  have hdigits := allPlain_ofNat d.digits
  have hzeros : ∀ n, AllPlain (List.replicate n '0') := Text.allPlain_replicate (by decide)
  unfold layOut
  generalize Text.ofNat d.digits = digits at hdigits
  have hhalves : ∀ n, AllPlain (digits.take n ++ "." ++ digits.drop n) := fun n =>
    ((hdigits.subset (List.take_subset n digits)).append (by decide)).append
      (hdigits.subset (List.drop_subset n digits))
  dsimp only
  split
  · split
    · exact (hdigits.append (hzeros _)).append (by decide)
    · split
      · exact hhalves _
      · exact (AllPlain.append (by decide) (hzeros _)).append hdigits
  · refine (AllPlain.append ?_ ?_).append (allPlain_padded 2 _)
    · split
      · exact hdigits
      · exact hhalves 1
    · split <;> decide

theorem allPlain_toText (x : Binary64) : AllPlain x.toText := by
  cases x with
  | nan => exact (by decide : AllPlain "nan".toList)
  | infinity negative => cases negative <;> exact (by decide)
  | finite negative units =>
    refine (allPlain_sign negative).append ?_
    split
    · decide
    · exact allPlain_layOut _

theorem allPlain_toJson (x : Binary64) : AllPlain x.toJson := by
  cases x with
  | nan => exact (by decide : AllPlain "NaN".toList)
  | infinity negative => cases negative <;> exact (by decide)
  | finite negative units => exact allPlain_toText (.finite negative units)

end Binary64

theorem yields_wholeText (n : Int) : Yields Calm (wholeText n) := by
  unfold wholeText
  split
  · exact Yields.pure (Text.allPlain_ofInt n).calm
  · exact Yields.error _

theorem allPlain_dropTrailing (c : Char) (h : AllPlain t) : AllPlain (dropTrailing c t) :=
  allPlain_reverse ((allPlain_reverse h).subset (List.dropWhile_subset _))

theorem allPlain_numberText (x : Binary64) : AllPlain (numberText x) := by
  unfold numberText
  split
  · refine AllPlain.append ?_ (allPlain_groupThousands (allPlain_ofNat _))
    split <;> decide
  · exact allPlain_dropTrailing '.' (allPlain_dropTrailing '0' (x.allPlain_fixed true 3))

theorem allPlain_percentText (x : Binary64) : AllPlain (percentText x) := by
  unfold percentText
  generalize (if isFraction x then x.scale 100 1 else x) = y
  refine AllPlain.append ?_ (by decide)
  split
  · exact (y.allPlain_fixed false 2).subset (List.dropLast_subset _)
  · exact y.allPlain_fixed false 2

theorem calm_moneyText {symbol : Text} (h : Text.Unopened symbol) (x : Binary64) :
    Calm (moneyText symbol x) := by
  have hamount : Calm (symbol ++ (cents x).1.fixed true 2) :=
    h.calm_append (Binary64.allPlain_fixed _ true 2) 
      (Binary64.exists_ne_newline_fixed _ true 2 (by decide))
  have hmoney := (allPlain_sign (cents x).2).calm.append hamount
  rwa [← List.append_assoc] at hmoney

/-! ## Dates and times -/

/-- The names of months are plain. -/
theorem Date.allPlain_monthName (d : Date) : AllPlain d.monthName.toList := by
  have hall : ∀ name ∈ ["January", "February", "March", "April", "May", "June", "July", "August",
      "September", "October", "November", "December"], AllPlain name.toList := by
    decide +kernel
  unfold Date.monthName
  rw [List.getD_eq_getElem?_getD]
  cases hm : ["January", "February", "March", "April", "May", "June", "July", "August", "September",
      "October", "November", "December"][d.month - 1]? with
  | none => exact (by decide : AllPlain "".toList)
  | some name => exact hall name (List.mem_of_getElem? hm)

theorem Date.allPlain_long (d : Date) : AllPlain d.long :=
  (((d.allPlain_monthName.append (by decide)).append (allPlain_ofNat _)).append (by decide)).append
    (allPlain_ofNat _)

theorem Clock.allPlain_twelveHour (c : Clock) : AllPlain c.twelveHour := by
  refine (((allPlain_ofNat _).append (by decide)).append (allPlain_padded 2 _)).append ?_
  split <;> decide

theorem DateTime.allPlain_long (m : DateTime) : AllPlain m.long :=
  (m.date.allPlain_long.append (by decide)).append m.clock.allPlain_twelveHour

theorem Date.allPlain_toIso (d : Date) : AllPlain d.toIso :=
  ((((allPlain_padded 4 _).append (by decide)).append (allPlain_padded 2 _)).append
    (by decide)).append (allPlain_padded 2 _)

theorem Clock.allPlain_toIso (c : Clock) : AllPlain c.toIso := by
  refine (((((allPlain_padded 2 _).append (by decide)).append (allPlain_padded 2 _)).append
    (by decide)).append (allPlain_padded 2 _)).append ?_
  split
  · decide
  · exact (allPlain_padded 6 _).cons (by decide)

theorem allPlain_offsetToIso (offset : Option Int) : AllPlain (offsetToIso offset) := by
  cases offset with
  | none => decide
  | some n =>
    unfold offsetToIso
    refine (((AllPlain.cons ?_ (allPlain_padded 2 _)).append (by decide)).append
      (allPlain_padded 2 _)).append ?_ |>.append ?_
    · split <;> decide
    · split
      · decide
      · exact (allPlain_padded 2 _).cons (by decide)
    · split
      · decide
      · exact (allPlain_padded 6 _).cons (by decide)

theorem TimeOfDay.allPlain_toIso (t : TimeOfDay) : AllPlain t.toIso :=
  t.clock.allPlain_toIso.append (allPlain_offsetToIso t.offset)

theorem DateTime.allPlain_toIso (m : DateTime) : AllPlain (m.toIso ' ') :=
  (m.date.allPlain_toIso.append (m.clock.allPlain_toIso.cons (by decide))).append
    (allPlain_offsetToIso m.offset)

/-! ## JSON -/

theorem calm_bracketed {opening closing : Char} (ho : opening ≠ Section.Span.placeholderStart)
    (hc : Text.Plain closing) (hne : closing ≠ '\n') (level : Nat) {items : List Text}
    (h : ∀ t ∈ items, Calm t) : Calm (bracketed opening closing level items) := by
  have hindent : ∀ n, AllPlain (indentation n) := fun n =>
    (Text.allPlain_replicate (by decide) _).cons (by decide)
  unfold bracketed
  split
  · refine ⟨ho, fun _ => ⟨fun hb => hc.1 (Option.some.inj hb), closing, by simp, hne⟩, ?_⟩
    exact (AllPlain.cons hc (by simp [AllPlain])).calm
  · have hjoin : Calm (Text.join (',' :: indentation (level + 1)) items) :=
      Text.calm_join ((hindent _).cons (by decide)).calm h
    have hrest : Calm (indentation (level + 1) ++ Text.join (',' :: indentation (level + 1)) items ++
        indentation level ++ [closing]) :=
      (((hindent _).calm.append hjoin).append (hindent _).calm).append
        (AllPlain.cons hc (by simp [AllPlain])).calm
    exact ⟨ho, fun _ => ⟨by simp [indentation], closing, by simp, hne⟩, hrest⟩

/-- A text without a brace is calm as a JSON string. -/
theorem calm_jsonString_of_allPlain (h : AllPlain t) : Calm (Text.jsonString t) :=
  Text.calm_jsonString (h.append (by decide)).calm

namespace Value

/-- The texts are calm. -/
abbrev CalmTexts (ts : List Text) : Prop :=
  ∀ t ∈ ts, Text.Calm t

mutual

/-- A calm value is calm in JSON. -/
theorem yields_toJson (level : Nat) : ∀ v : Value, v.Calm → Yields Text.Calm (v.toJson level)
  | .null, _ => Yields.pure (by decide)
  | .bool b, _ => Yields.pure (by cases b <;> decide)
  | .int n, _ => yields_wholeText n
  | .float x, _ => Yields.pure x.allPlain_toJson.calm
  | .text t, h => Yields.pure (Text.calm_jsonString (Text.Calm.append h (by decide)))
  | .list items, h => by
    rw [toJson]
    exact (yields_jsonItems (level + 1) items h).map fun ts hts =>
      calm_bracketed (by decide) (by decide) (by decide) level hts
  | .tuple items, h => by
    rw [toJson]
    exact (yields_jsonItems (level + 1) items h).map fun ts hts =>
      calm_bracketed (by decide) (by decide) (by decide) level hts
  | .record entries, h => by
    rw [toJson]
    exact (yields_jsonEntries (level + 1) entries h).map fun ts hts =>
      calm_bracketed (by decide) (by decide) (by decide) level hts
  | .unresolved, _ => Yields.pure (by decide)
  | .date d, _ => Yields.pure (calm_jsonString_of_allPlain d.allPlain_toIso)
  | .dateTime m, _ => Yields.pure (calm_jsonString_of_allPlain m.allPlain_toIso)
  | .time t, _ => Yields.pure (calm_jsonString_of_allPlain t.allPlain_toIso)

theorem yields_jsonItems (level : Nat) :
    ∀ vs : List Value, AllCalm vs → Yields CalmTexts (jsonItems level vs)
  | [], _ => Yields.pure nofun
  | v :: vs, h => by
    rw [jsonItems]
    refine (yields_toJson level v h.1).bind fun t ht => ?_
    exact (yields_jsonItems level vs h.2).bind fun ts hts =>
      Yields.pure (List.forall_mem_cons.2 ⟨ht, hts⟩)

theorem yields_jsonEntries (level : Nat) :
    ∀ entries : List (Text × Value), Record.Calm entries →
      Yields CalmTexts (jsonEntries level entries)
  | [], _ => Yields.pure nofun
  | (name, v) :: rest, h => by
    rw [jsonEntries]
    refine (yields_toJson level v h.2.1).bind fun t ht => ?_
    refine (yields_jsonEntries level rest h.2.2).bind fun ts hts =>
      Yields.pure (List.forall_mem_cons.2 ⟨?_, hts⟩)
    have hname : Text.Calm (name ++ ['"']) := h.1.calm_append (by decide) ⟨'"', by simp⟩
    exact ((Text.calm_jsonString hname).append (by decide)).append ht

end

/-! ## Plain text -/

mutual

/-- **A calm value is written calmly in plain text.** -/
theorem yields_toPlain : ∀ v : Value, v.Calm → Yields Text.Calm v.toPlain
  | .null, _ => Yields.pure trivial
  | .bool b, _ => Yields.pure (by cases b <;> decide)
  | .float x, _ => by
    rw [toPlain]
    split
    · exact yields_wholeText _
    · exact Yields.pure x.allPlain_toText.calm
  | .dateTime m, _ => by
    rw [toPlain]
    refine Yields.pure ?_
    split
    · exact m.allPlain_long.calm
    · exact m.date.allPlain_long.calm
  | .date d, _ => Yields.pure d.allPlain_long.calm
  | .time t, _ => Yields.pure t.clock.allPlain_twelveHour.calm
  | .list items, h => by
    rw [toPlain]
    exact (yields_plainItems items h).map fun ts hts => Text.calm_join (by decide) hts
  | .tuple items, h => by
    rw [toPlain]
    exact (yields_plainItems items h).map fun ts hts => Text.calm_join (by decide) hts
  | .record entries, h => by
    rw [toPlain]
    exact yields_toJson 0 (.record entries) h
  | .int n, _ => yields_wholeText n
  | .text t, h => Yields.pure h
  | .unresolved, _ => Yields.pure (by decide)

theorem yields_plainItems : ∀ vs : List Value, AllCalm vs → Yields CalmTexts (plainItems vs)
  | [], _ => Yields.pure nofun
  | v :: vs, h => by
    rw [plainItems]
    refine (yields_toPlain v h.1).bind fun t ht => ?_
    exact (yields_plainItems vs h.2).bind fun ts hts =>
      Yields.pure (List.forall_mem_cons.2 ⟨ht, hts⟩)

end

theorem yields_withAmount {v : Value} (h : v.Calm) {write : Binary64 → Text}
    (hw : ∀ x, Text.Calm (write x)) : Yields Text.Calm (v.withAmount write) := by
  unfold withAmount
  refine Yields.bind (P := fun _ => True) (fun _ _ => trivial) fun x _ => ?_
  split
  · exact Yields.pure (hw _)
  · exact yields_toPlain v h

end Value

/-! ## Formats -/

namespace Format

theorem yields_withMoment {v : Value} (h : v.Calm) {write : DateTime → Text}
    (hw : ∀ m, Calm (write m)) : Yields Calm (withMoment v write) := by
  unfold withMoment
  refine Yields.bind (P := fun _ => True) (fun _ _ => trivial) fun x _ => ?_
  split
  · exact Yields.pure (hw _)
  · exact Value.yields_toPlain v h

theorem calm_phoneText (h : Calm t) : Calm (phoneText t) := by
  have hdigits : AllPlain (t.filter Text.isDecimalDigit) := fun c hc =>
    Text.plain_of_isDecimalDigit (List.mem_filter.1 hc).2
  have hphone : ∀ digits, AllPlain digits → Calm (phoneDigits digits) := fun digits hd =>
    (((((AllPlain.append (by decide) (hd.subset (List.take_subset 3 _))).append (by decide)).append
      ((hd.subset (List.drop_subset 3 _)).subset (List.take_subset 3 _))).append (by decide)).append
      (hd.subset (List.drop_subset 6 _))).calm
  unfold phoneText
  dsimp only
  split
  · exact hphone _ (hdigits.subset (List.drop_subset 1 _))
  · split
    · exact hphone _ hdigits
    · exact h

theorem recased_capitalizeText (t : Text) : Text.Recased t (capitalizeText t) := by
  have h : Text.Recased (Text.join [' '] (Text.splitOn ' ' t)) (capitalizeText t) := by
    refine Text.recased_join ' ' fun word _ => ?_
    cases word with
    | nil => exact .nil
    | cons c rest => exact .cons (Text.writesAs_upperChar c) (.refl rest)
  rwa [Text.join_splitOn] at h

theorem plain_of_amountWithSymbol? {own : Char} {x : Binary64}
    (h : amountWithSymbol? t = some (own, x)) : Text.Plain own := by
  unfold amountWithSymbol? at h
  dsimp only at h
  split at h
  · cases h
  · split at h
    · next hown =>
      obtain ⟨y, -, he⟩ := Option.map_eq_some_iff.1 h
      obtain ⟨rfl, -⟩ := Prod.mk.inj he
      have hall : AllPlain currencySymbols := by decide
      exact hall _ hown.1
    · cases h

/-- **A calm value is written calmly in each format.** -/
theorem yields_apply {symbol : Text} (hs : Text.Unopened symbol) {v : Value} (h : v.Calm) (f : Format) :
    Yields Calm (f.apply symbol v) := by
  cases f with
  | currency =>
    show Yields Calm (formatCurrency symbol v)
    unfold formatCurrency
    split
    · split
      · next own x hown =>
        have hsymbol : AllPlain [own] := by
          simpa [AllPlain] using plain_of_amountWithSymbol? hown
        exact Yields.pure (calm_moneyText hsymbol.unopened x)
      · exact Value.yields_withAmount h (calm_moneyText hs)
    · exact Value.yields_withAmount h (calm_moneyText hs)
  | places digits =>
    show Yields Calm (formatPlaces digits v)
    unfold formatPlaces
    dsimp only
    split
    · exact Yields.error _
    · refine Yields.bind (P := fun _ => True) (fun _ _ => trivial) fun x _ => ?_
      split
      · exact Value.yields_toPlain v h
      · split
        · exact Yields.error _
        · exact Yields.pure (Binary64.allPlain_fixed _ false _).calm
  | number => exact Value.yields_withAmount h fun x => (allPlain_numberText x).calm
  | percent => exact Value.yields_withAmount h fun x => (allPlain_percentText x).calm
  | date => exact yields_withMoment h fun m => m.date.allPlain_long.calm
  | dateTime => exact yields_withMoment h fun m => m.allPlain_long.calm
  | time =>
    cases v with
    | time t => exact Yields.pure t.clock.allPlain_twelveHour.calm
    | _ => exact yields_withMoment h fun m => m.clock.allPlain_twelveHour.calm
  | phone => exact (Value.yields_toPlain v h).map fun t ht => calm_phoneText ht
  | upper => exact (Value.yields_toPlain v h).map fun t ht => (Text.recased_upper t).calm ht
  | lower => exact (Value.yields_toPlain v h).map fun t ht => (Text.recased_lowerAfter [] t).calm ht
  | capitalize =>
    exact (Value.yields_toPlain v h).map fun t ht => (recased_capitalizeText t).calm ht
  | yesNo => exact Yields.pure (by unfold yesOrNo; split <;> decide)
  | text => exact Value.yields_toPlain v h

end Format

end

end MailMerge
