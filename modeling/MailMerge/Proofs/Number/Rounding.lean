import MailMerge.Number.Binary64
import Mathlib.Tactic.Ring

/-!
# Rounded whole numbers

A whole number is rounded to 53 significant bits. It has no nearest finite value if this takes it to 2¹⁰²⁴ or beyond:
the last number before is half a step below 2¹⁰²⁴, where an exact half goes up. Rounding keeps the order of whole
numbers, but may bring two of them together. Whole numbers of at most 53 bits, times any power of two, are kept as
they are.

**`ofInt?_eq_none_iff`**: the whole numbers that are too large for a floating-point value.

**`comparesAs_nearestInt`**: the values nearest to two whole numbers compare as the numbers do, or are equal.

**`nearestInt_of_fits`**: the value nearest to a whole number is whole, if it is finite.
-/

namespace MailMerge.Binary64

/-! ## Rounding -/

theorem div_le_divHalfEven (num den : Nat) : num / den ≤ divHalfEven num den := by
  unfold divHalfEven
  grind

/-- A quotient is rounded to less than an even number if it is less than half a step below it. -/
theorem divHalfEven_lt_iff {num den k : Nat} (hk : k % 2 = 0) (hpos : 0 < k) (hden : 0 < den) :
    divHalfEven num den < k ↔ 2 * num < (2 * k - 1) * den := by
  obtain ⟨j, rfl⟩ : ∃ j, k = j + 1 := ⟨k - 1, by omega⟩
  have hnum := Nat.div_add_mod num den
  have hmod := Nat.mod_lt num hden
  have hstep : (2 * (j + 1) - 1) * den = 2 * (den * j) + den := by
    rw [show 2 * (j + 1) - 1 = 2 * j + 1 by omega]
    ring
  have hless : ∀ q, q < j → den * q + den ≤ den * j := fun q hq => by
    rw [← Nat.mul_succ]
    exact Nat.mul_le_mul_left den hq
  have hmore : ∀ q, j < q → den * j + den ≤ den * q := fun q hq => by
    rw [← Nat.mul_succ]
    exact Nat.mul_le_mul_left den hq
  rw [hstep]
  unfold divHalfEven
  dsimp only
  rcases Nat.lt_trichotomy (num / den) j with hq | hq | hq
  · have := hless _ hq
    constructor
    · intro _; omega
    · intro _
      split
      · omega
      · split <;> first | omega | (split <;> omega)
  · rw [hq] at hnum ⊢
    split
    · omega
    · split
      · omega
      · rw [if_neg (by omega)]
        omega
  · have := hmore _ hq
    constructor
    · intro h
      split at h
      · omega
      · split at h
        · omega
        · split at h <;> omega
    · intro _; omega

/-! ## Spacing -/

theorem spacing_eq {units k : Nat} (hlow : 2 ^ (52 + k) ≤ units) (hhigh : units < 2 ^ (53 + k)) :
    spacing units = k := by
  have hne : units ≠ 0 := by
    have := Nat.two_pow_pos (52 + k)
    omega
  have h₁ := (Nat.le_log2 hne).2 hlow
  have h₂ := (Nat.log2_lt hne).2 hhigh
  unfold spacing
  omega

/-- The spacing is right for every number of units. -/
theorem spacing_cases (units : Nat) :
    units < 2 ^ 53 ∧ spacing units = 0 ∨
      ∃ k, 2 ^ (52 + k) ≤ units ∧ units < 2 ^ (53 + k) ∧ spacing units = k := by
  by_cases hsmall : units < 2 ^ 53
  · refine .inl ⟨hsmall, ?_⟩
    unfold spacing
    by_cases hzero : units = 0
    · subst hzero
      rfl
    · have := (Nat.log2_lt hzero).2 hsmall
      omega
  · have hne : units ≠ 0 := by omega
    have hlog : 53 ≤ units.log2 := (Nat.le_log2 hne).2 (by omega)
    have hlow : 2 ^ (52 + (units.log2 - 52)) ≤ units := by
      rw [show 52 + (units.log2 - 52) = units.log2 by omega]
      exact Nat.log2_self_le hne
    have hhigh : units < 2 ^ (53 + (units.log2 - 52)) := by
      rw [show 53 + (units.log2 - 52) = units.log2 + 1 by omega]
      exact Nat.lt_log2_self
    exact .inr ⟨_, hlow, hhigh, spacing_eq hlow hhigh⟩

/-- A number of units, rounded to 53 significant bits. -/
def roundUnits (units : Nat) : Nat :=
  divHalfEven units (2 ^ spacing units) * 2 ^ spacing units

theorem nearestUnits_one (m : Nat) : nearestUnits m 1 = roundUnits (m * one) := by
  unfold nearestUnits roundUnits
  simp only [Nat.div_one, Nat.one_mul]
  rfl

theorem pow_eq_of_add {a b c : Nat} (h : a + b = c) : Nat.pow 2 c = 2 ^ a * 2 ^ b := by
  subst h
  exact Nat.pow_add 2 a b

/-- A number of units is rounded beyond all finite values just if it is half a step below the first
that is too large, or more. -/
theorem roundUnits_lt_limit_iff (units : Nat) : roundUnits units < limit ↔ 2 * units < (2 ^ 54 - 1) * 2 ^ 2045 := by
  have hlimit : limit = 2 ^ 53 * 2 ^ 2045 := by
    delta limit
    exact pow_eq_of_add (a := 53) (b := 2045) (c := 2098) rfl
  have hfew : ∀ k ≤ 2044, units < 2 ^ (53 + k) →
      divHalfEven units (2 ^ k) * 2 ^ k < limit ∧ 2 * units < (2 ^ 54 - 1) * 2 ^ 2045 := by
    intro k hk hunits
    have hgap : 2 ^ k ≤ 2 ^ 2044 := Nat.pow_le_pow_right (by decide) hk
    rw [pow_add] at hunits
    have hround : divHalfEven units (2 ^ k) < 2 ^ 53 + 2 := by
      rw [divHalfEven_lt_iff (by decide) (by decide) (Nat.two_pow_pos k)]
      omega
    have hprod := Nat.mul_le_mul (show divHalfEven units (2 ^ k) ≤ 2 ^ 53 + 1 by omega) hgap
    have hdouble : 2 ^ 2045 = 2 * 2 ^ 2044 := by rw [← Nat.pow_succ']
    rw [hlimit, hdouble]
    generalize 2 ^ 2044 = step at *
    omega
  rw [roundUnits]
  obtain ⟨hsmall, hspacing⟩ | ⟨k, hlow, hhigh, hspacing⟩ := spacing_cases units
  · rw [hspacing]
    obtain ⟨h₁, h₂⟩ := hfew 0 (by decide) hsmall
    exact iff_of_true h₁ h₂
  · rw [hspacing]
    rcases Nat.lt_trichotomy k 2045 with hk | rfl | hk
    · obtain ⟨h₁, h₂⟩ := hfew k (by omega) hhigh
      exact iff_of_true h₁ h₂
    · have heven := @divHalfEven_lt_iff units (2 ^ 2045) (2 ^ 53) (by decide) (by decide)
        (Nat.two_pow_pos _)
      rw [show 2 * 2 ^ 53 - 1 = 2 ^ 54 - 1 by rfl] at heven
      rw [← heven, hlimit]
      exact Nat.mul_lt_mul_right (Nat.two_pow_pos _)
    · have hgap : 2 * 2 ^ 2045 ≤ 2 ^ k := by
        rw [← Nat.pow_succ']
        exact Nat.pow_le_pow_right (by decide) hk
      rw [pow_add] at hlow
      have hquotient : 2 ^ 52 ≤ divHalfEven units (2 ^ k) :=
        Nat.le_trans ((Nat.le_div_iff_mul_le (Nat.two_pow_pos k)).2 hlow) (div_le_divHalfEven ..)
      have hprod := Nat.mul_le_mul hquotient hgap
      rw [hlimit]
      generalize 2 ^ 2045 = step at *
      constructor <;> intro h <;> omega

/-! ## Integers -/

/-- The first natural number that no finite value is nearest to: half a step below 2¹⁰²⁴. -/
def firstLarge : Nat := (2 ^ 54 - 1) * 2 ^ 970

theorem firstLarge_le : firstLarge ≤ 10 ^ 400 := by
  unfold firstLarge
  decide +kernel

/-- **The whole numbers too large for a floating-point value**: those from half a step below 2¹⁰²⁴
on. -/
theorem ofInt?_eq_none_iff {n : Int} : ofInt? n = none ↔ firstLarge ≤ n.natAbs := by
  have hcancel : 2 * (n.natAbs * one) < (2 ^ 54 - 1) * 2 ^ 2045 ↔ n.natAbs < firstLarge := by
    have hunit : 0 < 2 ^ 1074 := Nat.two_pow_pos _
    have hone : one = 2 ^ 1073 * 2 ^ 1 := by
      unfold one
      exact pow_eq_of_add rfl
    have hsplit : 2 ^ 2045 = 2 ^ 970 * 2 * 2 ^ 1074 := by
      rw [← Nat.pow_succ, ← Nat.pow_add]
    rw [hone, ← Nat.pow_add, hsplit, firstLarge]
    generalize 2 ^ 1074 = unit at hunit ⊢
    generalize 2 ^ 970 = step
    rw [show 2 * (n.natAbs * unit) = 2 * unit * n.natAbs by ring,
      show (2 ^ 54 - 1) * (step * 2 * unit) = 2 * unit * ((2 ^ 54 - 1) * step) by ring]
    exact Nat.mul_lt_mul_left (by omega)
  unfold ofInt?
  dsimp only
  rw [nearestUnits_one]
  have hround := (roundUnits_lt_limit_iff (n.natAbs * one)).trans hcancel
  split
  · next h => simpa using hround.1 h
  · next h => simpa [hround] using h

theorem exists_one_eq : ∃ s, one = 2 ^ s := by
  unfold one
  generalize 1074 = s
  exact ⟨s, rfl⟩

/-! ## Rounding keeps the order -/

theorem divHalfEven_le {num den k : Nat} (hden : 0 < den) (h : num ≤ k * den) :
    divHalfEven num den ≤ k := by
  have hq : num / den ≤ k := Nat.div_le_of_le_mul (by rwa [Nat.mul_comm])
  have hnum := Nat.div_add_mod num den
  rcases Nat.lt_or_eq_of_le hq with hlt | heq
  · unfold divHalfEven
    grind
  · -- Nothing is left over, so nothing is rounded up.
    rw [heq, Nat.mul_comm] at hnum
    unfold divHalfEven
    grind

theorem divHalfEven_mul {a den : Nat} (hden : 0 < den) : divHalfEven (a * den) den = a := by
  apply Nat.le_antisymm (divHalfEven_le hden (Nat.le_refl _))
  calc a = a * den / den := (Nat.mul_div_cancel a hden).symm
    _ ≤ _ := div_le_divHalfEven ..

theorem divHalfEven_mono {a b : Nat} (den : Nat) (h : a ≤ b) : divHalfEven a den ≤ divHalfEven b den := by
  have hq : a / den ≤ b / den := Nat.div_le_div_right h
  rcases Nat.lt_or_eq_of_le hq with hlt | heq
  · have := div_le_divHalfEven b den
    unfold divHalfEven at this ⊢
    grind
  · have ha := Nat.div_add_mod a den
    have hb := Nat.div_add_mod b den
    rw [heq] at ha
    have hmod : a % den ≤ b % den := by omega
    unfold divHalfEven
    rw [heq]
    grind

theorem roundUnits_of_dvd {units : Nat} (h : 2 ^ spacing units ∣ units) : roundUnits units = units := by
  obtain ⟨a, ha⟩ := h
  rw [Nat.mul_comm] at ha
  rw [roundUnits]
  generalize spacing units = k at ha ⊢
  rw [ha, divHalfEven_mul (Nat.two_pow_pos k)]

/-- What has at most 53 significant bits is kept. -/
theorem roundUnits_mul {q : Nat} (hq : q ≤ 2 ^ 53) (s : Nat) : roundUnits (q * 2 ^ s) = q * 2 ^ s := by
  apply roundUnits_of_dvd
  obtain ⟨-, hspacing⟩ | ⟨k, hlow, -, hspacing⟩ := spacing_cases (q * 2 ^ s)
  · rw [hspacing]
    exact Nat.one_dvd _
  · rw [hspacing]
    by_cases hk : k ≤ s
    · exact Nat.dvd_mul_left_of_dvd (Nat.pow_dvd_pow 2 hk) q
    · -- Only the largest number of 53 bits, plus one, has a wider spacing than its own unit.
      have hupper : q * 2 ^ s ≤ 2 ^ (53 + s) := by
        rw [pow_add]
        exact Nat.mul_le_mul_right _ hq
      have hks : k = s + 1 := by
        have := (Nat.pow_le_pow_iff_right (by decide)).1 (Nat.le_trans hlow hupper)
        omega
      subst hks
      have hunits : q * 2 ^ s = 2 ^ (53 + s) :=
        Nat.le_antisymm hupper (by rwa [show 53 + s = 52 + (s + 1) by omega])
      rw [hunits]
      exact Nat.pow_dvd_pow 2 (by omega)

theorem spacing_mono {a b : Nat} (h : a ≤ b) : spacing a ≤ spacing b := by
  by_cases ha : a = 0
  · subst ha
    exact Nat.zero_le _
  · have hlog : a.log2 ≤ b.log2 :=
      (Nat.le_log2 (by omega)).2 (Nat.le_trans (Nat.log2_self_le ha) h)
    unfold spacing
    omega

/-- A rounded number has at most 53 significant bits. -/
theorem divHalfEven_spacing_le (units : Nat) : divHalfEven units (2 ^ spacing units) ≤ 2 ^ 53 := by
  refine divHalfEven_le (Nat.two_pow_pos _) ?_
  rw [← pow_add]
  obtain ⟨h, hspacing⟩ | ⟨k, -, h, hspacing⟩ := spacing_cases units
  · rw [hspacing]
    exact Nat.le_of_lt h
  · rw [hspacing]
    exact Nat.le_of_lt h

@[simp] theorem roundUnits_roundUnits (units : Nat) : roundUnits (roundUnits units) = roundUnits units :=
  roundUnits_mul (divHalfEven_spacing_le units) (spacing units)

theorem roundUnits_le (units : Nat) : roundUnits units ≤ 2 ^ (53 + spacing units) := by
  rw [roundUnits, pow_add]
  exact Nat.mul_le_mul_right _ (divHalfEven_spacing_le units)

theorem le_roundUnits {units k : Nat} (h : 2 ^ (52 + k) ≤ units) (hk : spacing units = k) :
    2 ^ (52 + k) ≤ roundUnits units := by
  rw [roundUnits, hk, pow_add]
  rw [pow_add] at h
  exact Nat.mul_le_mul_right _
    (Nat.le_trans ((Nat.le_div_iff_mul_le (Nat.two_pow_pos k)).2 h) (div_le_divHalfEven ..))

/-- **Rounding keeps the order.** -/
theorem roundUnits_mono {a b : Nat} (h : a ≤ b) : roundUnits a ≤ roundUnits b := by
  rcases Nat.lt_or_eq_of_le (spacing_mono h) with hlt | heq
  · -- There is a power of two between the two.
    obtain ⟨-, hzero⟩ | ⟨k, hlow, -, hk⟩ := spacing_cases b
    · omega
    · calc roundUnits a ≤ 2 ^ (53 + spacing a) := roundUnits_le a
        _ ≤ 2 ^ (52 + k) := Nat.pow_le_pow_right (by decide) (by omega)
        _ ≤ roundUnits b := le_roundUnits hlow hk
  · rw [roundUnits, roundUnits, heq]
    exact Nat.mul_le_mul_right _ (divHalfEven_mono _ h)

/-! ## Whole numbers -/

/-- The value nearest to a whole number; beyond all finite ones if that is too large. -/
def nearestInt (n : Int) : Binary64 :=
  nearest (n < 0) n.natAbs 1

/-- The value in units, where what is beyond all finite ones counts as the first number of units that
is too large. -/
def key : Binary64 → Int
  | nan => 0
  | infinity negative => signedUnits negative limit
  | finite negative units => signedUnits negative units

theorem limit_pos : 0 < limit := by
  unfold limit
  generalize 2098 = k
  exact Nat.two_pow_pos k

theorem one_pos : 0 < one := by
  unfold one
  generalize 1074 = k
  exact Nat.two_pow_pos k

theorem key_nearestInt (n : Int) :
    key (nearestInt n) = signedUnits (n < 0) (min (nearestUnits n.natAbs 1) limit) := by
  unfold nearestInt nearest
  dsimp only
  split
  · next h => rw [Nat.min_eq_left (Nat.le_of_lt h)]; rfl
  · next h => rw [Nat.min_eq_right (Nat.le_of_not_lt h)]; rfl

theorem key_nearestInt_mono {m n : Int} (h : m ≤ n) : key (nearestInt m) ≤ key (nearestInt n) := by
  have hmono : ∀ a b : Nat, a ≤ b → min (nearestUnits a 1) limit ≤ min (nearestUnits b 1) limit := by
    intro a b hab
    rw [nearestUnits_one, nearestUnits_one]
    have := roundUnits_mono (Nat.mul_le_mul_right one hab)
    omega
  rw [key_nearestInt, key_nearestInt]
  unfold signedUnits
  by_cases hm : m < 0
  · by_cases hn : n < 0
    · have := hmono n.natAbs m.natAbs (by omega)
      simp only [hm, hn, decide_true, if_true]
      omega
    · simp only [hm, hn, decide_true, decide_false, if_true, Bool.false_eq_true, if_false]
      omega
  · have := hmono m.natAbs n.natAbs (by omega)
    simp only [hm, show ¬ n < 0 by omega, decide_false, Bool.false_eq_true, if_false]
    omega

theorem nearestInt_cases (n : Int) :
    (∃ units < limit, nearestInt n = finite (n < 0) units) ∨ nearestInt n = infinity (n < 0) := by
  unfold nearestInt nearest
  dsimp only
  split
  · next h => exact .inl ⟨_, h, rfl⟩
  · exact .inr rfl

/-- The order of two values is that of two keys. -/
def ComparesAs (x y : Binary64) (a b : Int) : Prop :=
  a < b ∧ compare? x y = some .lt ∨ a = b ∧ compare? x y = some .eq ∨ b < a ∧ compare? x y = some .gt

theorem comparesAs_finite (s t : Bool) (a b : Nat) :
    ComparesAs (finite s a) (finite t b) (signedUnits s a) (signedUnits t b) := by
  unfold ComparesAs
  rw [compare?]
  generalize signedUnits s a = x
  generalize signedUnits t b = y
  rcases lt_trichotomy x y with h | h | h
  · exact .inl ⟨h, congrArg some (compare_lt_iff_lt.2 h)⟩
  · exact .inr (.inl ⟨h, congrArg some (compare_eq_iff_eq.2 h)⟩)
  · exact .inr (.inr ⟨h, congrArg some (compare_gt_iff_gt.2 h)⟩)

theorem signedUnits_lt_limit {units : Nat} (negative : Bool) (h : units < limit) :
    -(limit : Int) < signedUnits negative units ∧ signedUnits negative units < limit := by
  unfold signedUnits
  split <;> omega

/-- **The values nearest to two whole numbers compare as their keys.** -/
theorem comparesAs_nearestInt (m n : Int) :
    ComparesAs (nearestInt m) (nearestInt n) (key (nearestInt m)) (key (nearestInt n)) := by
  have hpos := limit_pos
  obtain ⟨a, ha, hm⟩ | hm := nearestInt_cases m
  · obtain ⟨b, hb, hn⟩ | hn := nearestInt_cases n
    · rw [hm, hn]
      exact comparesAs_finite ..
    · rw [hm, hn]
      have hrange := signedUnits_lt_limit (m < 0) ha
      cases decide (n < 0) with
      | false => exact .inl ⟨hrange.2, rfl⟩
      | true => exact .inr (.inr ⟨hrange.1, rfl⟩)
  · obtain ⟨b, hb, hn⟩ | hn := nearestInt_cases n
    · rw [hm, hn]
      have hrange := signedUnits_lt_limit (n < 0) hb
      cases decide (m < 0) with
      | false => exact .inr (.inr ⟨hrange.2, rfl⟩)
      | true => exact .inl ⟨hrange.1, rfl⟩
    · rw [hm, hn]
      cases decide (m < 0) with
      | false =>
        cases decide (n < 0) with
        | false => exact .inr (.inl ⟨rfl, rfl⟩)
        | true => exact .inr (.inr ⟨by show -(limit : Int) < limit; omega, rfl⟩)
      | true =>
        cases decide (n < 0) with
        | false => exact .inl ⟨by show -(limit : Int) < limit; omega, rfl⟩
        | true => exact .inr (.inl ⟨rfl, rfl⟩)

/-! ## Whole numbers that are kept -/

/-- The whole number has a nearest value that is finite. -/
def Fits (n : Int) : Prop :=
  n.natAbs < firstLarge

theorem fits_iff {n : Int} : Fits n ↔ nearestUnits n.natAbs 1 < limit := by
  have hnone : ofInt? n = none ↔ ¬ nearestUnits n.natAbs 1 < limit := by
    unfold ofInt?
    dsimp only
    split
    · next h => simp [h]
    · next h => simp [h]
  rw [Fits, ← Nat.not_le, ← ofInt?_eq_none_iff, hnone, not_not]

theorem ofInt?_eq_some {n : Int} (h : Fits n) : ofInt? n = some (nearestInt n) := by
  unfold ofInt? nearestInt nearest
  dsimp only
  rw [if_pos (fits_iff.1 h), if_pos (fits_iff.1 h)]

theorem nearestInt_of_not_fits {n : Int} (h : ¬ Fits n) : nearestInt n = infinity (n < 0) := by
  unfold nearestInt nearest
  dsimp only
  rw [if_neg fun hlt => h (fits_iff.2 hlt)]

theorem equalsInt_nearestInt_iff {m n : Int} : (nearestInt n).equalsInt m ↔
    Fits n ∧ signedUnits (n < 0) (nearestUnits n.natAbs 1) = m * one := by
  by_cases h : Fits n
  · unfold nearestInt nearest
    dsimp only
    rw [if_pos (fits_iff.1 h), and_iff_right h]
    exact beq_iff_eq
  · rw [nearestInt_of_not_fits h]
    exact iff_of_false Bool.false_ne_true fun hfits => h hfits.1

/-- The nearest value is the whole number itself. -/
def IsExact (n : Int) : Prop :=
  (nearestInt n).equalsInt n

theorem isExact_iff {n : Int} :
    IsExact n ↔ Fits n ∧ nearestUnits n.natAbs 1 = n.natAbs * one := by
  rw [IsExact, equalsInt_nearestInt_iff]
  refine and_congr_right fun _ => ?_
  have hsize : (n.natAbs * one : Nat) = (n.natAbs : Int) * one := Int.natCast_mul ..
  unfold signedUnits
  by_cases hn : n < 0
  · have habs : (n.natAbs : Int) = -n := by omega
    rw [habs, Int.neg_mul] at hsize
    simp only [hn, decide_true, if_true]
    omega
  · have habs : (n.natAbs : Int) = n := by omega
    rw [habs] at hsize
    simp only [hn, decide_false, Bool.false_eq_true, if_false]
    omega

theorem natAbs_signedUnits (negative : Bool) (units : Nat) : (signedUnits negative units).natAbs = units := by
  unfold signedUnits
  split <;> simp

theorem key_of_equalsInt {m n : Int} (h : (nearestInt n).equalsInt m) : key (nearestInt n) = m * one := by
  obtain ⟨hfits, hunits⟩ := equalsInt_nearestInt_iff.1 h
  rw [key_nearestInt, Nat.min_eq_left (Nat.le_of_lt (fits_iff.1 hfits))]
  exact hunits

/-- A whole number that a nearest value is equal to is kept itself. -/
theorem isExact_of_equalsInt {m n : Int} (h : (nearestInt n).equalsInt m) : IsExact m := by
  obtain ⟨hfits, hunits⟩ := equalsInt_nearestInt_iff.1 h
  have hsize : nearestUnits n.natAbs 1 = m.natAbs * one := by
    have := congrArg Int.natAbs hunits
    rwa [natAbs_signedUnits, Int.natAbs_mul, Int.natAbs_natCast] at this
  have hkept : nearestUnits m.natAbs 1 = m.natAbs * one := by
    calc nearestUnits m.natAbs 1 = roundUnits (m.natAbs * one) := nearestUnits_one _
      _ = roundUnits (roundUnits (n.natAbs * one)) :=
        congrArg roundUnits (hsize.symm.trans (nearestUnits_one _))
      _ = roundUnits (n.natAbs * one) := roundUnits_roundUnits _
      _ = m.natAbs * one := (nearestUnits_one _).symm.trans hsize
  have hlt : nearestUnits m.natAbs 1 < limit :=
    lt_of_eq_of_lt (hkept.trans hsize.symm) (fits_iff.1 hfits)
  exact isExact_iff.2 ⟨fits_iff.2 hlt, hkept⟩

/-- Whole numbers of 53 bits are kept. -/
theorem isExact_of_le {n : Int} (h : n.natAbs ≤ 2 ^ 53) : IsExact n := by
  obtain ⟨s, hs⟩ := exists_one_eq
  have hfits : Fits n := by
    unfold Fits firstLarge
    generalize 970 = k
    have := Nat.two_pow_pos k
    omega
  refine isExact_iff.2 ⟨hfits, ?_⟩
  rw [nearestUnits_one, hs, roundUnits_mul h]

/-! ## The whole number of a nearest value -/

variable {n : Int} {m : Nat}

/-- The value nearest to a whole number is whole. -/
theorem one_dvd_nearestUnits (m : Nat) : one ∣ nearestUnits m 1 := by
  obtain ⟨s, hs⟩ := exists_one_eq
  rw [nearestUnits_one]
  by_cases hk : s ≤ spacing (m * one)
  · have hcoarse : one ∣ 2 ^ spacing (m * one) := by
      nth_rewrite 1 [hs]
      exact Nat.pow_dvd_pow 2 hk
    exact Nat.dvd_mul_left_of_dvd hcoarse _
  · -- The values around are closer together than whole numbers are.
    have hfine : 2 ^ spacing (m * one) ∣ m * one := by
      refine Nat.dvd_mul_left_of_dvd ?_ m
      nth_rewrite 2 [hs]
      exact Nat.pow_dvd_pow 2 (Nat.le_of_not_le hk)
    rw [roundUnits_of_dvd hfine]
    exact Nat.dvd_mul_left one m

theorem one_le_nearestUnits (hm : 0 < m) : one ≤ nearestUnits m 1 := by
  obtain ⟨s, hs⟩ := exists_one_eq
  calc one = roundUnits (1 * one) := by rw [hs, roundUnits_mul (by decide), Nat.one_mul]
    _ ≤ roundUnits (m * one) := roundUnits_mono (Nat.mul_le_mul_right one hm)
    _ = nearestUnits m 1 := (nearestUnits_one m).symm

/-- The value nearest to a whole number that is not too large is a whole number, with the same sign. -/
theorem nearestInt_of_fits (h : Fits n) : ∃ m, nearestInt n = finite (n < 0) (m * one) ∧
    (n ≠ 0 → 0 < m) ∧ (IsExact n ↔ m = n.natAbs) := by
  obtain ⟨m, hm⟩ := one_dvd_nearestUnits n.natAbs
  rw [Nat.mul_comm] at hm
  refine ⟨m, ?_, ?_, ?_⟩
  · unfold nearestInt nearest
    dsimp only
    rw [if_pos (fits_iff.1 h), hm]
  · intro hn
    refine Nat.pos_of_ne_zero fun hzero => ?_
    have := one_le_nearestUnits (Int.natAbs_pos.2 hn)
    rw [hm, hzero, Nat.zero_mul] at this
    exact absurd one_pos (Nat.not_lt_of_le this)
  · rw [isExact_iff, and_iff_right h, hm]
    exact Nat.mul_left_inj (Nat.pos_iff_ne_zero.1 one_pos)

end MailMerge.Binary64
