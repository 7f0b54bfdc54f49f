import MailMerge.Format.Basic
import MailMerge.Proofs.Number.Digits

/-!
# Whole numbers in the number formats

A number format writes the floating-point value nearest to a number. That of a whole number is whole, so
the digits before the point are those of the rounded number and the places after it are zeros: the number
itself is written just if rounding keeps it.

**`writes_whole_iff`**: the whole numbers that the number formats write as they are, among them all of at
most 53 bits.
-/

namespace MailMerge

namespace Text

variable {m n : Nat}

/-! ## Groups of thousands -/

/-- A number of more than three digits ends in a full group. -/
theorem ofNat_eq_append_group (h : ¬ n < 1000) : ofNat n = ofNat (n / 1000) ++ padded 3 (n % 1000) := by
  have hgroup : n % 1000 < 10 ^ 3 := Nat.mod_lt n (by decide)
  rw [← ofNat_mul_pow_add (by omega) (by decide) hgroup]
  congr 1
  omega

/-- The digits of a number, with a comma before each group of three. -/
def grouped (n : Nat) : Text :=
  if n < 1000 then ofNat n else grouped (n / 1000) ++ ',' :: padded 3 (n % 1000)

theorem groupThousands_of_short {t : Text} (h : t.length ≤ 3) : groupThousands t = t := by
  have hshort : ∀ u : Text, u.length ≤ 3 → groupReversed u = u := by
    intro u hu
    unfold groupReversed
    split
    · simp only [List.length_cons] at hu
      omega
    · rfl
  rw [groupThousands, hshort _ (by rwa [List.length_reverse]), List.reverse_reverse]

theorem groupThousands_append {t group : Text} (ht : t ≠ []) (hgroup : group.length = 3) :
    groupThousands (t ++ group) = groupThousands t ++ ',' :: group := by
  obtain ⟨d, rest, hd⟩ := List.exists_cons_of_ne_nil (mt List.reverse_eq_nil_iff.1 ht)
  match group, hgroup with
  | [x, y, z], _ => simp [groupThousands, hd, groupReversed]

theorem groupThousands_ofNat (n : Nat) : groupThousands (ofNat n) = grouped n := by
  fun_induction grouped n with
  | case1 n h =>
    exact groupThousands_of_short ((length_ofNat_le_iff (by decide)).2 h)
  | case2 n h ih =>
    have hgroup : (padded 3 (n % 1000)).length = 3 :=
      length_padded (by decide) (Nat.mod_lt n (by decide))
    rw [ofNat_eq_append_group h, groupThousands_append (ofNat_ne_nil _) hgroup, ih]

theorem without_comma_of_forall {t : Text} (h : ∀ c ∈ t, c = '-' ∨ isDecimalDigit c) :
    without ',' t = t := by
  refine List.filter_eq_self.2 fun c hc => ?_
  have hne : c ≠ ',' := by
    rintro rfl
    exact absurd (h _ hc) (by decide)
  simpa using hne

/-- **Grouping adds nothing but commas.** -/
theorem without_comma_grouped (n : Nat) : without ',' (grouped n) = ofNat n := by
  fun_induction grouped n with
  | case1 n h => exact without_comma_of_forall fun _ hc => .inr (isDecimalDigit_of_mem_ofNat hc)
  | case2 n h ih =>
    have hgroup : without ',' (padded 3 (n % 1000)) = padded 3 (n % 1000) :=
      without_comma_of_forall fun _ hc => .inr (isDecimalDigit_of_mem_padded hc)
    rw [without, List.filter_append, ← without, ih, List.filter_cons_of_neg (by simp), ← without,
      hgroup, ofNat_eq_append_group h]

theorem grouped_inj : grouped m = grouped n ↔ m = n := by
  constructor
  · intro h
    rw [← ofNat_inj, ← without_comma_grouped, h, without_comma_grouped]
  · exact congrArg grouped

theorem mem_grouped {c : Char} (hc : c ∈ grouped n) : c = ',' ∨ isDecimalDigit c := by
  by_cases hcomma : c = ','
  · exact .inl hcomma
  · have hmem : c ∈ without ',' (grouped n) := List.mem_filter.2 ⟨hc, by simpa using hcomma⟩
    rw [without_comma_grouped] at hmem
    exact .inr (isDecimalDigit_of_mem_ofNat hmem)

/-- A whole number with its thousands grouped, and a mark between its sign and its digits. -/
def groupedInt (mark : Text) (n : Int) : Text :=
  sign (n < 0) ++ mark ++ grouped n.natAbs

end Text

namespace Binary64

variable {m p : Nat}

/-! ## Places -/

theorem roundPlaces_mul (m p : Nat) : roundPlaces (m * one) p = m * 10 ^ p := by
  rw [roundPlaces, Nat.pow_eq, Nat.mul_right_comm, divHalfEven_mul one_pos]

theorem padded_mul_pow (hp : 0 < p) (m : Nat) :
    Text.padded (p + 1) (m * 10 ^ p) = Text.ofNat m ++ List.replicate p '0' := by
  by_cases hm : m = 0
  · subst hm
    rw [Nat.zero_mul, Text.padded_zero (Nat.succ_pos p)]
    rfl
  · have hsplit : Text.ofNat (m * 10 ^ p) = Text.ofNat m ++ List.replicate p '0' := by
      rw [← Text.padded_zero hp, ← Text.ofNat_mul_pow_add (Nat.pos_of_ne_zero hm) hp
        (Nat.pow_pos (by decide)), Nat.add_zero]
    have hpos := Text.length_ofNat_pos m
    rw [Text.padded_of_le ?_, hsplit]
    rw [hsplit, List.length_append, List.length_replicate]
    omega

/-- The places of a whole number are zeros. -/
theorem placeText_mul (grouping : Bool) (hp : 0 < p) (m : Nat) : placeText grouping p (m * 10 ^ p) =
    (if grouping then Text.grouped m else Text.ofNat m) ++ '.' :: List.replicate p '0' := by
  have hlen : (Text.ofNat m ++ List.replicate p '0').length - p = (Text.ofNat m).length := by
    rw [List.length_append, List.length_replicate, Nat.add_sub_cancel]
  unfold placeText
  dsimp only
  rw [padded_mul_pow hp, hlen, List.take_left, List.drop_left, Text.groupThousands_ofNat,
    if_neg (Nat.pos_iff_ne_zero.1 hp), List.append_assoc]
  rfl

theorem fixed_mul (grouping negative : Bool) (hp : 0 < p) (m : Nat) :
    (finite negative (m * one)).fixed grouping p =
      Text.sign negative ++ (if grouping then Text.grouped m else Text.ofNat m) ++
        '.' :: List.replicate p '0' := by
  rw [fixed, roundPlaces_mul, placeText_mul grouping hp, ← List.append_assoc]
  rfl

end Binary64

open Binary64 (nearestInt finite infinity one Fits IsExact)

/-- A whole value without a fraction is written with its thousands grouped. -/
theorem numberText_mul {negative : Bool} {m : Nat} (h : negative → 0 < m) :
    numberText (finite negative (m * one)) = Text.sign negative ++ Text.grouped m := by
  have hwhole : (finite negative (m * one)).isWhole := by
    simp [Binary64.isWhole]
  have hdiv : m * one / one = m := Nat.mul_div_cancel m Binary64.one_pos
  rw [numberText, if_pos hwhole, groupedWhole, Text.groupThousands_ofNat]
  cases negative with
  | true =>
    have := h rfl
    rw [Binary64.truncate, hdiv, if_pos (by omega), Int.natAbs_neg, Int.natAbs_natCast]
    rfl
  | false =>
    rw [Binary64.truncate, hdiv, if_neg (by omega), Int.natAbs_natCast]
    rfl

theorem moneyText_mul {negative : Bool} {m : Nat} (symbol : Text) (h : negative → 0 < m) :
    moneyText symbol (finite negative (m * one)) =
      Text.sign negative ++ symbol ++ Text.grouped m ++ ".00" := by
  have hsign : (negative && Binary64.roundPlaces (m * one) 2 != 0) = negative := by
    cases negative with
    | true =>
      have := h rfl
      rw [Binary64.roundPlaces_mul]
      simp
      omega
    | false => rfl
  rw [moneyText, cents]
  dsimp only
  rw [hsign, Binary64.fixed_mul true false (by decide)]
  simp [Text.sign, List.append_assoc]

namespace Value

variable {n : Int} {v : Value}

/-! ## Amounts -/

/-- The value is a whole number, given as itself or by its digits. -/
inductive IsInt (n : Int) : Value → Prop
  | number : IsInt n (int n)
  | numeral : IsInt n (text (Text.ofInt n))

theorem IsInt.amount?_eq (h : v.IsInt n) : v.amount? = .ok (some (nearestInt n)) ∨
    ¬ Fits n ∧ v.amount? = .error .largeNumber := by
  cases h with
  | number =>
    rw [amount?]
    by_cases hfits : Fits n
    · rw [Binary64.ofInt?_eq_some hfits]
      exact .inl rfl
    · rw [Binary64.ofInt?_eq_none_iff.2 (Nat.le_of_not_lt hfits)]
      exact .inr ⟨hfits, rfl⟩
  | numeral =>
    have hnan : (nearestInt n).isNaN = false := by
      obtain ⟨units, -, hn⟩ | hn := Binary64.nearestInt_cases n
      · rw [hn]
        rfl
      · rw [hn]
        rfl
    left
    rw [amount?, Text.trim_ofInt, Text.without_comma_of_forall fun _ => Text.mem_ofInt,
      Numeral.decimal?_ofInt, Option.filter_some, hnan]
    rfl

/-- A way to write numbers is faithful to a whole number just if rounding keeps it, provided that it
tells whole values apart, and these from what is beyond all finite ones. -/
theorem IsInt.withAmount_eq_ok_iff (h : v.IsInt n) {write : Binary64 → Text} (whole : Nat → Text)
    (hfinite : ∀ m, (n < 0 → 0 < m) → write (finite (n < 0) (m * one)) = whole m)
    (hinfinity : write (infinity (n < 0)) ≠ whole n.natAbs)
    (hinj : ∀ m, whole m = whole n.natAbs → m = n.natAbs) :
    v.withAmount write = .ok (whole n.natAbs) ↔ IsExact n := by
  by_cases hfits : Fits n
  · obtain ⟨m, hm, hpos, hexact⟩ := Binary64.nearestInt_of_fits hfits
    have hamount : v.amount? = .ok (some (nearestInt n)) :=
      h.amount?_eq.resolve_right fun hlarge => hlarge.1 hfits
    have hwrite : v.withAmount write = .ok (whole m) := by
      rw [withAmount, hamount, hm, ← hfinite m fun hn => hpos (Int.ne_of_lt hn)]
      rfl
    rw [hwrite, Except.ok.injEq, hexact]
    exact ⟨hinj m, congrArg whole⟩
  · have hrounded : ¬ IsExact n := fun hexact => hfits (Binary64.isExact_iff.1 hexact).1
    refine iff_of_false ?_ hrounded
    rw [withAmount]
    obtain hamount | ⟨-, hamount⟩ := h.amount?_eq
    · rw [hamount, Binary64.nearestInt_of_not_fits hfits]
      exact fun he => hinfinity (Except.ok.inj he)
    · rw [hamount]
      exact nofun

/-- Digits bring no currency symbol with them. -/
theorem amountWithSymbol?_ofInt (n : Int) : amountWithSymbol? (Text.ofInt n) = none := by
  obtain ⟨c, t, ht⟩ := List.exists_cons_of_ne_nil (Text.ofNat_ne_nil n.natAbs)
  have hc : Text.isDecimalDigit c := Text.isDecimalDigit_of_mem_ofNat (ht ▸ List.mem_cons_self)
  have hsign : takeMinus (Text.ofInt n) = (decide (n < 0), c :: t) := by
    rw [Text.ofInt_eq, ht]
    cases decide (n < 0) with
    | true => rfl
    | false =>
      show takeMinus (c :: t) = _
      unfold takeMinus
      split
      · next he => exact absurd ((List.cons.inj he).1 ▸ hc) (by decide)
      · rfl
  have hstart : Text.trimStart (c :: t) = c :: t :=
    List.dropWhile_cons_of_neg (by simp [Text.isBlank_of_isDecimalDigit hc])
  have hsymbol : c ∉ currencySymbols := by
    have hnone : ∀ s ∈ currencySymbols, Text.isDecimalDigit s = false := by decide
    intro hmem
    exact absurd (hnone c hmem) (by simp [hc])
  unfold amountWithSymbol?
  rw [Text.trim_ofInt, hsign]
  dsimp only
  rw [hstart]
  dsimp only
  rw [if_neg fun hamount => hsymbol hamount.1]

end Value

namespace Format

variable {n : Int} {v : Value}

/-! ## The formats -/

theorem number_eq_ok_iff (symbol : Text) (h : v.IsInt n) :
    number.apply symbol v = .ok (Text.groupedInt [] n) ↔ IsExact n := by
  refine h.withAmount_eq_ok_iff (fun m => Text.sign (n < 0) ++ [] ++ Text.grouped m) ?_ ?_ ?_
  · intro m hm
    rw [numberText_mul (by simpa using hm), List.append_nil]
  · have hinf : ∀ b, numberText (infinity b) = Text.sign b ++ [] ++ "inf".toList := by decide
    rw [hinf]
    intro he
    have hf : 'f' ∈ Text.grouped n.natAbs := by
      rw [← List.append_cancel_left he]
      decide
    exact absurd (Text.mem_grouped hf) (by decide)
  · intro m he
    exact Text.grouped_inj.1 (List.append_cancel_left he)

theorem currency_eq_ok_iff (symbol : Text) (h : v.IsInt n) :
    currency.apply symbol v = .ok (Text.groupedInt symbol n ++ ".00") ↔ IsExact n := by
  have happly : currency.apply symbol v = v.withAmount (moneyText symbol) := by
    cases h with
    | number => rfl
    | numeral => rw [apply, formatCurrency, Value.amountWithSymbol?_ofInt]
  rw [happly]
  refine h.withAmount_eq_ok_iff
    (fun m => Text.sign (n < 0) ++ symbol ++ Text.grouped m ++ ".00") ?_ ?_ ?_
  · intro m hm
    exact moneyText_mul symbol (by simpa using hm)
  · intro he
    change Text.sign (n < 0) ++ symbol ++ "inf" = _ at he
    rw [List.append_assoc _ (Text.grouped _)] at he
    have hpoint : '.' ∈ "inf".toList := by
      rw [List.append_cancel_left he]
      simp
    exact absurd hpoint (by decide)
  · intro m he
    exact Text.grouped_inj.1 (List.append_cancel_left (List.append_cancel_right he))

/-- The numeral of a number of places that can be written is read. -/
theorem formatPlaces_ofNat {d : Nat} (hd : d ≤ maxPlaces) (v : Value) :
    formatPlaces (Text.ofNat d) v = v.withAmount (Binary64.fixed false d) := by
  have hshort : ¬ Numeral.maxDigits < (Text.ofNat d).length := by
    have hten : (Text.ofNat d).length ≤ 10 := by
      rw [Text.length_ofNat_le_iff (by decide)]
      exact Nat.lt_of_le_of_lt hd (by decide)
    exact Nat.not_lt_of_le (Nat.le_trans hten (by decide))
  rw [formatPlaces, Numeral.ofDigits_ofNat, if_neg hshort]
  simp only [if_neg (Nat.not_lt_of_le hd)]
  rw [Value.withAmount]
  cases v.amount? with
  | error f => rfl
  | ok x => cases x <;> rfl

theorem places_eq_ok_iff (symbol : Text) (h : v.IsInt n) {d : Nat} (hd : 1 ≤ d) :
    (places (Text.ofNat d)).apply symbol v = .ok (Text.ofInt n ++ '.' :: List.replicate d '0') ↔
      IsExact n ∧ d ≤ maxPlaces := by
  by_cases hmax : d ≤ maxPlaces
  · rw [and_iff_left hmax, apply, formatPlaces_ofNat hmax, Text.ofInt_eq]
    refine h.withAmount_eq_ok_iff
      (fun m => Text.sign (n < 0) ++ Text.ofNat m ++ '.' :: List.replicate d '0') ?_ ?_ ?_
    · intro m _
      exact Binary64.fixed_mul false _ hd m
    · have hinf : ∀ b, (infinity b).fixed false d = Text.sign b ++ "inf" := by
        intro b
        cases b <;> rfl
      rw [hinf, List.append_assoc]
      intro he
      have hpoint : '.' ∈ "inf".toList := by
        rw [List.append_cancel_left he]
        simp
      exact absurd hpoint (by decide)
    · intro m he
      exact Text.ofNat_inj.1 (List.append_cancel_left (List.append_cancel_right he))
  · refine iff_of_false ?_ fun hplaces => hmax hplaces.2
    rw [apply, formatPlaces, Numeral.ofDigits_ofNat]
    split
    · exact nofun
    · obtain hamount | ⟨-, hamount⟩ := h.amount?_eq
      · rw [hamount]
        simp only [if_pos (Nat.lt_of_not_le hmax)]
        exact nofun
      · rw [hamount]
        exact nofun

/-- **The number formats write a whole number as it is just if rounding keeps it**, its thousands grouped
or with any number of places that can be written. Rounding keeps all whole numbers of 53 bits. -/
theorem writes_whole_iff (symbol : Text) (h : v.IsInt n) :
    (number.apply symbol v = .ok (Text.groupedInt [] n) ↔ IsExact n) ∧
      (currency.apply symbol v = .ok (Text.groupedInt symbol n ++ ".00") ↔ IsExact n) ∧
      (∀ d ≥ 1, (places (Text.ofNat d)).apply symbol v =
        .ok (Text.ofInt n ++ '.' :: List.replicate d '0') ↔ IsExact n ∧ d ≤ maxPlaces) ∧
      (n.natAbs ≤ 2 ^ 53 → IsExact n) :=
  ⟨number_eq_ok_iff symbol h, currency_eq_ok_iff symbol h, fun _ hd => places_eq_ok_iff symbol h hd,
    Binary64.isExact_of_le⟩

theorem writes_whole_million :
    number.apply "$" (.int (-1234567)) = .ok "-1,234,567" ∧
      currency.apply "$" (.text "1000000") = .ok "$1,000,000.00" ∧
      (places "2").apply "$" (.int (-1234567)) = .ok "-1234567.00" ∧
      number.apply "$" (.int 9007199254740993) ≠ .ok "9,007,199,254,740,993" := by
  have hgrouped : ∀ (mark : Text) (n : Int),
      Text.groupedInt mark n = Text.sign (n < 0) ++ mark ++ groupThousands (Text.ofNat n.natAbs) :=
    fun mark n => by rw [Text.groupThousands_ofNat]; rfl
  obtain ⟨hnumber, -, hplaces, hkept⟩ := writes_whole_iff "$" (Value.IsInt.number (n := -1234567))
  obtain ⟨-, hcurrency, -, hkept'⟩ := writes_whole_iff "$" (Value.IsInt.numeral (n := 1000000))
  obtain ⟨hrounded, -⟩ := writes_whole_iff "$" (Value.IsInt.number (n := 9007199254740993))
  rw [hgrouped] at hnumber hcurrency hrounded
  refine ⟨hnumber.2 (hkept (by decide)), hcurrency.2 (hkept' (by decide)),
    (hplaces 2 (by decide)).2 ⟨hkept (by decide), by decide⟩, ?_⟩
  intro he
  have hexact : ¬ IsExact 9007199254740993 := by
    unfold IsExact
    decide +kernel
  exact hexact (hrounded.1 he)

end Format
end MailMerge
