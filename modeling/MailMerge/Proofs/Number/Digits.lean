import MailMerge.Proofs.Number.Rounding
import MailMerge.Proofs.Text.Calm
import MailMerge.Proofs.Text.Cut

/-!
# Numerals of whole numbers

The digits of a whole number, read as a decimal number, give the value nearest to it, however many
they are.

**`decimal?_ofInt`**: a whole number and its numeral have the same nearest value.
-/

namespace MailMerge

namespace Text

/-- A whole number is written without blanks. -/
theorem isBlank_of_mem_ofInt {c : Char} {n : Int} (h : c ∈ ofInt n) : isBlank c = false := by
  rcases mem_ofInt h with rfl | hd
  · decide
  · exact isBlank_of_isDecimalDigit hd

@[simp] theorem trim_ofInt (n : Int) : trim (ofInt n) = ofInt n :=
  trim_eq_self (fun _ hc => isBlank_of_mem_ofInt (List.mem_of_mem_head? hc))
    fun _ hc => isBlank_of_mem_ofInt (List.mem_of_mem_getLast? hc)

theorem allBlank_ofInt (n : Int) : allBlank (ofInt n) = false := by
  obtain ⟨c, t, ht⟩ := List.exists_cons_of_ne_nil (ofInt_ne_nil n)
  have hc : isBlank c = false := isBlank_of_mem_ofInt (ht ▸ List.mem_cons_self)
  simp [allBlank, ht, hc]

end Text

namespace Numeral

/-! ## Runs of digits -/

theorem takeDigitsFrom_of_forall {t : Text} (h : ∀ c ∈ t, Text.isDecimalDigit c) (inside : Bool) :
    takeDigitsFrom inside t = (t.filterMap Text.digitValue?, []) := by
  induction t generalizing inside with
  | nil => rfl
  | cons c t ih =>
    rw [List.forall_mem_cons] at h
    obtain ⟨d, hd⟩ := Option.isSome_iff_exists.1 h.1
    simp only [takeDigitsFrom, hd, ih h.2, List.filterMap_cons]

theorem foldl_digits (a : Nat) (ds : List Nat) :
    ds.foldl (fun n d => n * 10 + d) a = a * 10 ^ ds.length + ofDigits ds := by
  induction ds generalizing a with
  | nil => simp [ofDigits]
  | cons d ds ih =>
    rw [ofDigits, List.foldl_cons, List.foldl_cons, ih, ih (0 * 10 + d), List.length_cons]
    ring

theorem ofDigits_cons (d : Nat) (ds : List Nat) :
    ofDigits (d :: ds) = d * 10 ^ ds.length + ofDigits ds := by
  rw [ofDigits, List.foldl_cons, foldl_digits, Nat.zero_mul, Nat.zero_add]

theorem ofDigits_dropWhile (ds : List Nat) : ofDigits (ds.dropWhile (· == 0)) = ofDigits ds := by
  induction ds with
  | nil => rfl
  | cons d ds ih =>
    by_cases hd : d = 0
    · subst hd
      rw [List.dropWhile_cons_of_pos (by simp), ih, ofDigits_cons, Nat.zero_mul, Nat.zero_add]
    · rw [List.dropWhile_cons_of_neg (by simpa using hd)]

/-- A number is at least as large as the number of its significant digits says. -/
theorem pow_le_ofDigits {ds : List Nat} {k : Nat} (h : k < significant ds) : 10 ^ k ≤ ofDigits ds := by
  have hhead := List.head?_dropWhile_not (· == 0) ds
  rw [← ofDigits_dropWhile]
  rw [significant] at h
  cases hds : ds.dropWhile (· == 0) with
  | nil =>
    rw [hds] at h
    exact absurd h (Nat.not_lt_zero k)
  | cons d rest =>
    rw [hds] at h hhead
    have hd : 1 ≤ d := by
      have : d ≠ 0 := by simpa using hhead
      omega
    rw [ofDigits_cons]
    calc 10 ^ k ≤ 1 * 10 ^ rest.length := by
          rw [Nat.one_mul]
          exact Nat.pow_le_pow_right (by decide) (Nat.le_of_lt_succ h)
      _ ≤ d * 10 ^ rest.length := Nat.mul_le_mul_right _ hd
      _ ≤ _ := Nat.le_add_right ..

/-! ## Whole numbers -/

theorem trimMargin_of_forall {t : Text} (h : ∀ c ∈ t, Text.isBlank c = false) : trimMargin t = t := by
  have hdrop : ∀ u : Text, (∀ c ∈ u, Text.isBlank c = false) → u.dropWhile isMargin = u := by
    intro u hu
    cases u with
    | nil => rfl
    | cons c u => exact List.dropWhile_cons_of_neg (by simp [isMargin, hu c List.mem_cons_self])
  rw [trimMargin, hdrop t h, hdrop t.reverse fun c hc => h c (List.mem_reverse.1 hc), List.reverse_reverse]

theorem takeSign_ofInt (n : Int) :
    takeSign (Text.ofInt n) = (decide (n < 0), Text.ofNat n.natAbs) := by
  obtain ⟨c, t, ht⟩ := List.exists_cons_of_ne_nil (Text.ofNat_ne_nil n.natAbs)
  have hc : Text.isDecimalDigit c := Text.isDecimalDigit_of_mem_ofNat (ht ▸ List.mem_cons_self)
  rw [Text.ofInt_eq, ht]
  cases decide (n < 0) with
  | true => rfl
  | false =>
    show takeSign (c :: t) = _
    unfold takeSign
    split
    · next he => exact absurd ((List.cons.inj he).1 ▸ hc) (by decide)
    · next he => exact absurd ((List.cons.inj he).1 ▸ hc) (by decide)
    · rfl

/-- Digits are no named value. -/
theorem named?_ofNat (negative : Bool) (n : Nat) : named? negative (Text.ofNat n) = none := by
  obtain ⟨c, t, ht⟩ := List.exists_cons_of_ne_nil (Text.ofNat_ne_nil n)
  have hc : c.isDigit := Text.isDigit_of_mem_ofNat (ht ▸ List.mem_cons_self)
  have hlower : c.toLower ≠ 'i' ∧ c.toLower ≠ 'n' := by
    have hlt := Text.toNat_lt_of_isDigit hc
    revert hc
    exact Text.forall_toNat_lt (P := fun c => c.isDigit → c.toLower ≠ 'i' ∧ c.toLower ≠ 'n')
      (by decide +kernel) hlt
  have hfirst : ∀ {d : Char} {word : Text}, c.toLower ≠ d → word.head? = some d →
      (c :: t).map Char.toLower ≠ word := by
    rintro d word hd hw rfl
    exact hd (Option.some.inj hw)
  unfold named?
  rw [ht]
  dsimp only
  rw [if_neg, if_neg]
  · exact hfirst hlower.2 rfl
  · rw [not_or]
    exact ⟨hfirst hlower.1 rfl, hfirst hlower.1 rfl⟩

theorem nearestDecimal_ofNat (n : Nat) (negative : Bool) :
    nearestDecimal negative n (significant ((Text.ofNat n).filterMap Text.digitValue?)) 0 =
      .nearest negative n 1 := by
  have hvalue : ofDigits ((Text.ofNat n).filterMap Text.digitValue?) = n := ofDigits_ofNat n
  have hfits : 400 < significant ((Text.ofNat n).filterMap Text.digitValue?) → ¬ Binary64.Fits n := by
    intro h hfits
    have := pow_le_ofDigits h
    rw [hvalue] at this
    exact absurd hfits (Nat.not_lt_of_le (Nat.le_trans Binary64.firstLarge_le this))
  generalize significant _ = k at hfits
  unfold nearestDecimal
  by_cases hzero : n = 0
  · subst hzero
    have hunits : Binary64.nearestUnits 0 1 = 0 := by
      rw [Binary64.nearestUnits_one, Nat.zero_mul]
      exact Binary64.roundUnits_of_dvd (Nat.dvd_zero _)
    rw [if_pos rfl, Binary64.nearest, hunits]
    exact (if_pos Binary64.limit_pos).symm
  · rw [if_neg hzero]
    by_cases hk : 400 < k
    · rw [if_pos (by omega), Binary64.nearest]
      have hlarge : ¬ Binary64.nearestUnits n 1 < Binary64.limit :=
        fun h => hfits hk (Binary64.fits_iff.2 h)
      exact (if_neg hlarge).symm
    · rw [if_neg (by omega), if_neg (by omega), if_pos (Int.le_refl 0)]
      show Binary64.nearest negative (n * 1) 1 = _
      rw [Nat.mul_one]

/-- **A whole number and its numeral have the same nearest value.** -/
theorem decimal?_ofInt (n : Int) : decimal? (Text.ofInt n) = some (Binary64.nearestInt n) := by
  have hdigits : ∀ c ∈ Text.ofNat n.natAbs, Text.isDecimalDigit c :=
    fun _ => Text.isDecimalDigit_of_mem_ofNat
  have htake : takeDigits (Text.ofNat n.natAbs) =
      ((Text.ofNat n.natAbs).filterMap Text.digitValue?, []) :=
    takeDigitsFrom_of_forall hdigits false
  have hsome : (Text.ofNat n.natAbs).filterMap Text.digitValue? ≠ [] := by
    obtain ⟨c, t, ht⟩ := List.exists_cons_of_ne_nil (Text.ofNat_ne_nil n.natAbs)
    obtain ⟨d, hd⟩ := Option.isSome_iff_exists.1 (hdigits c (ht ▸ List.mem_cons_self))
    rw [ht, List.filterMap_cons, hd]
    exact List.cons_ne_nil _ _
  unfold decimal?
  rw [trimMargin_of_forall fun _ hc => Text.isBlank_of_mem_ofInt hc, takeSign_ofInt]
  dsimp only
  rw [named?_ofNat, htake]
  dsimp only
  rw [if_neg (by simpa using hsome)]
  simp only [exponent?, Option.map_some, List.append_nil, ofDigits_ofNat]
  exact congrArg some (nearestDecimal_ofNat n.natAbs (decide (n < 0)))

end Numeral
end MailMerge
