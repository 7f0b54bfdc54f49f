import MailMerge.Number.Numeral
import Mathlib.Algebra.Group.Nat.Defs

/-!
# The digits of a number

A number is written with decimal digits, and read back from them, so no two numbers have the same digits.

**`ofNat_mul_pow_add`**: the digits of a number fall into those before its last few ones, and these, filled up
with zeros.
-/

namespace MailMerge.Text

variable {a b d m n w : Nat} {c : Char}

/-! ## Digits -/

theorem isDigit_of_mem_ofNat (h : c ∈ ofNat n) : c.isDigit :=
  Nat.isDigit_of_mem_toDigits (by decide) (by decide) h

theorem toNat_lt_of_isDigit (h : c.isDigit) : c.toNat < 0x80 := by
  simp only [Char.isDigit, Bool.and_eq_true, decide_eq_true_eq, UInt32.le_iff_toNat_le] at h
  show c.val.toNat < 0x80
  exact Nat.lt_of_le_of_lt h.2 (by decide)

theorem isDecimalDigit_of_mem_ofNat (h : c ∈ ofNat n) : isDecimalDigit c := by
  have hd := isDigit_of_mem_ofNat h
  simp [isDecimalDigit, digitValue?, hd, toNat_lt_of_isDigit hd]

theorem ofNat_ne_nil (n : Nat) : ofNat n ≠ [] :=
  Nat.toDigits_ne_nil

theorem length_ofNat_pos (n : Nat) : 0 < (ofNat n).length :=
  Nat.length_toDigits_pos

theorem length_ofNat_le_iff (hw : 0 < w) : (ofNat n).length ≤ w ↔ n < 10 ^ w :=
  Nat.length_toDigits_le_iff (by decide) hw

theorem ofNat_inj : ofNat m = ofNat n ↔ m = n := by
  constructor
  · intro h
    rw [← Numeral.ofDigits_ofNat m, h, Numeral.ofDigits_ofNat]
  · exact congrArg ofNat

theorem ofNat_append_digit (ha : 0 < a) (hd : d < 10) : ofNat a ++ ofNat d = ofNat (10 * a + d) :=
  Nat.toDigits_append_toDigits (by decide) ha hd

/-! ## Digits in a width -/

theorem isDecimalDigit_of_mem_padded (h : c ∈ padded w n) : isDecimalDigit c := by
  rcases List.mem_append.1 h with hc | hc
  · rw [List.eq_of_mem_replicate hc]
    decide
  · exact isDecimalDigit_of_mem_ofNat hc

theorem length_padded (hw : 0 < w) (hb : b < 10 ^ w) : (padded w b).length = w := by
  have := (length_ofNat_le_iff hw).2 hb
  simp only [padded, List.length_append, List.length_replicate]
  omega

/-- What fills the width is not padded. -/
theorem padded_of_le (h : w ≤ (ofNat n).length) : padded w n = ofNat n := by
  rw [padded, Nat.sub_eq_zero_of_le h]
  rfl

theorem padded_zero (hw : 0 < w) : padded w 0 = List.replicate w '0' := by
  obtain ⟨k, rfl⟩ : ∃ k, w = k + 1 := ⟨w - 1, by omega⟩
  exact List.replicate_succ'.symm

/-- The last digit of a padded number. -/
theorem padded_succ (hw : 0 < w) (b : Nat) : padded (w + 1) b = padded w (b / 10) ++ ofNat (b % 10) := by
  have hlast : (ofNat (b % 10)).length = 1 := by
    rw [ofNat, Nat.toDigits_of_lt_base (Nat.mod_lt b (by decide))]
    rfl
  by_cases hb : b < 10
  · have hlen : (ofNat b).length = 1 := by rwa [Nat.mod_eq_of_lt hb] at hlast
    rw [Nat.div_eq_of_lt hb, Nat.mod_eq_of_lt hb, padded_zero hw, padded, hlen, Nat.add_sub_cancel]
  · have hsplit : ofNat b = ofNat (b / 10) ++ ofNat (b % 10) := by
      rw [ofNat_append_digit (by omega) (Nat.mod_lt b (by decide)), Nat.div_add_mod]
    rw [padded, padded, hsplit, List.length_append, hlast, Nat.add_sub_add_right, List.append_assoc]

/-- The digits of a number are those of what stands before its last few ones, and these. -/
theorem ofNat_mul_pow_add (ha : 0 < a) (hw : 0 < w) (hb : b < 10 ^ w) :
    ofNat (a * 10 ^ w + b) = ofNat a ++ padded w b := by
  induction hw generalizing b with
  | refl => rw [padded_of_le (length_ofNat_pos b), ofNat_append_digit ha hb, Nat.pow_one, Nat.mul_comm]
  | @step w hw ih =>
    have hrest : b / 10 < 10 ^ w := by
      rw [Nat.pow_succ] at hb
      omega
    have hpos : 0 < a * 10 ^ w + b / 10 :=
      Nat.add_pos_left (Nat.mul_pos ha (Nat.pow_pos (by decide))) _
    rw [Nat.succ_eq_add_one, padded_succ hw b, ← List.append_assoc, ← ih hrest,
      ofNat_append_digit hpos (Nat.mod_lt b (by decide)), Nat.pow_succ, ← Nat.mul_assoc]
    congr 1
    omega

/-! ## Signs -/

/-- The sign that is written before a number. -/
def sign (negative : Bool) : Text :=
  if negative then ['-'] else []

theorem ofInt_eq (n : Int) : ofInt n = sign (n < 0) ++ ofNat n.natAbs := by
  cases n with
  | ofNat n =>
    have hn : ¬ Int.ofNat n < 0 := Int.not_lt.2 (Int.natCast_nonneg n)
    rw [decide_eq_false hn]
    rfl
  | negSucc n =>
    rw [decide_eq_true (Int.negSucc_lt_zero n)]
    rfl

theorem mem_ofInt {n : Int} (h : c ∈ ofInt n) : c = '-' ∨ isDecimalDigit c := by
  rw [ofInt_eq] at h
  rcases List.mem_append.1 h with hc | hc
  · unfold sign at hc
    split at hc
    · exact .inl (List.mem_singleton.1 hc)
    · cases hc
  · exact .inr (isDecimalDigit_of_mem_ofNat hc)

theorem ofInt_ne_nil (n : Int) : ofInt n ≠ [] := by
  rw [ofInt_eq]
  exact List.append_ne_nil_of_right_ne_nil _ (ofNat_ne_nil n.natAbs)

end MailMerge.Text
