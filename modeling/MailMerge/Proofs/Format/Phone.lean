import MailMerge.Format.Basic

/-!
# Phone numbers

A text has a phone number if it holds ten decimal digits, or eleven of which the first is a one. The
number is what its last ten digits say, whatever stands between them, and it is written with brackets
around the first three digits and a hyphen before the last four.

The characters that are put between the digits are none themselves. So the written number has the same
ten digits again, and is written as it is.

**`phoneText_normal`**: the digits are kept, and a second writing changes nothing.
-/

namespace MailMerge.Format

variable {t digits : Text}

/-- The decimal digits of a text, in order. -/
def digitsOf (t : Text) : Text :=
  t.filter Text.isDecimalDigit

/-- There is a phone number in the text: ten digits, or eleven of which the first is a one. -/
def HasNumber (t : Text) : Prop :=
  (digitsOf t).length = 10 ∨ (digitsOf t).length = 11 ∧ (digitsOf t).head? = some '1'

instance (t : Text) : Decidable (HasNumber t) :=
  inferInstanceAs (Decidable (_ ∨ _))

/-- The last ten digits of a text. -/
def lastTen (t : Text) : Text :=
  (digitsOf t).drop ((digitsOf t).length - 10)

theorem HasNumber.length_lastTen (h : HasNumber t) : (lastTen t).length = 10 := by
  rw [lastTen, List.length_drop]
  rcases h with h | ⟨h, -⟩ <;> omega

theorem isDecimalDigit_of_mem_lastTen {c : Char} (h : c ∈ lastTen t) : Text.isDecimalDigit c :=
  (List.mem_filter.1 (List.mem_of_mem_drop h)).2

/-! ## Writing -/

theorem phoneText_eq (t : Text) : phoneText t =
    if (digitsOf t).length = 11 ∧ (digitsOf t).head? = some '1' then phoneDigits ((digitsOf t).drop 1)
    else if (digitsOf t).length = 10 then phoneDigits (digitsOf t) else t :=
  rfl

theorem phoneText_of_hasNumber (h : HasNumber t) : phoneText t = phoneDigits (lastTen t) := by
  rw [phoneText_eq, lastTen]
  rcases h with hl | ⟨hl, hone⟩
  · rw [if_neg (by simp [hl]), if_pos hl, hl, Nat.sub_self, List.drop_zero]
  · rw [if_pos ⟨hl, hone⟩, hl]

theorem phoneText_of_not_hasNumber (h : ¬ HasNumber t) : phoneText t = t := by
  rw [HasNumber, not_or] at h
  rw [phoneText_eq, if_neg h.2, if_neg h.1]

/-- The three parts of a number. -/
theorem parts_append (digits : Text) :
    digits.take 3 ++ (digits.drop 3).take 3 ++ digits.drop 6 = digits := by
  rw [List.append_assoc, ← List.drop_drop (i := 3) (j := 3), List.take_append_drop,
    List.take_append_drop]

/-- What is put between digits is no digit. -/
theorem digitsOf_phoneDigits (h : ∀ c ∈ digits, Text.isDecimalDigit c) :
    digitsOf (phoneDigits digits) = digits := by
  have hself : ∀ s : Text, s ⊆ digits → s.filter Text.isDecimalDigit = s := fun s hs =>
    List.filter_eq_self.2 fun c hc => h c (hs hc)
  have hopen : "(".toList.filter Text.isDecimalDigit = [] := by decide
  have hclose : ") ".toList.filter Text.isDecimalDigit = [] := by decide
  have hhyphen : "-".toList.filter Text.isDecimalDigit = [] := by decide
  have harea := hself (digits.take 3) (List.take_subset 3 digits)
  have hexchange := hself ((digits.drop 3).take 3)
    (List.Subset.trans (List.take_subset 3 _) (List.drop_subset 3 digits))
  have hline := hself (digits.drop 6) (List.drop_subset 6 digits)
  rw [digitsOf, phoneDigits]
  simp only [List.filter_append, hopen, hclose, hhyphen, harea, hexchange, hline, List.nil_append,
    List.append_nil]
  exact parts_append digits

/-- A written number is written as it is. -/
theorem phoneText_phoneDigits (h : ∀ c ∈ digits, Text.isDecimalDigit c) (hl : digits.length = 10) :
    phoneText (phoneDigits digits) = phoneDigits digits := by
  have hdigits := digitsOf_phoneDigits h
  have hnumber : HasNumber (phoneDigits digits) := .inl (hdigits.symm ▸ hl)
  rw [phoneText_of_hasNumber hnumber, lastTen, hdigits, hl]
  rfl

/-- **Phone numbers have a normal form.** A text without a phone number is left as it is. In any other
text the last ten digits are kept, in the form of a phone number, and a second writing changes nothing. -/
theorem phoneText_normal (symbol t : Text) :
    apply symbol (.text t) phone = .ok (phoneText t) ∧
    (¬ HasNumber t → phoneText t = t) ∧
    (HasNumber t → ∃ area exchange line : Text,
      area.length = 3 ∧ exchange.length = 3 ∧ line.length = 4 ∧
      phoneText t = "(" ++ area ++ ") " ++ exchange ++ "-" ++ line ∧
      area ++ exchange ++ line = lastTen t ∧ digitsOf (phoneText t) = lastTen t) ∧
    phoneText (phoneText t) = phoneText t := by
  refine ⟨rfl, phoneText_of_not_hasNumber, fun h => ?_, ?_⟩
  · have hl := h.length_lastTen
    refine ⟨(lastTen t).take 3, ((lastTen t).drop 3).take 3, (lastTen t).drop 6, ?_, ?_, ?_,
      phoneText_of_hasNumber h, parts_append (lastTen t), ?_⟩
    · rw [List.length_take, hl]
      rfl
    · rw [List.length_take, List.length_drop, hl]
      rfl
    · rw [List.length_drop, hl]
    · rw [phoneText_of_hasNumber h]
      exact digitsOf_phoneDigits fun c hc => isDecimalDigit_of_mem_lastTen hc
  · by_cases h : HasNumber t
    · rw [phoneText_of_hasNumber h]
      exact phoneText_phoneDigits (fun c hc => isDecimalDigit_of_mem_lastTen hc) h.length_lastTen
    · rw [phoneText_of_not_hasNumber h, phoneText_of_not_hasNumber h]

/-- A number with its country code, and with digits of two scripts. -/
theorem phoneText_normal_country :
    HasNumber "+1 555.123.456٧" ∧ phoneText "+1 555.123.456٧" = "(555) 123-456٧" ∧
      ∃ area exchange line : Text, area.length = 3 ∧ exchange.length = 3 ∧ line.length = 4 ∧
        phoneText "+1 555.123.456٧" = "(" ++ area ++ ") " ++ exchange ++ "-" ++ line ∧
        area ++ exchange ++ line = lastTen "+1 555.123.456٧" ∧
        digitsOf (phoneText "+1 555.123.456٧") = lastTen "+1 555.123.456٧" := by
  have h : HasNumber "+1 555.123.456٧" := by decide +kernel
  exact ⟨h, by decide +kernel, (phoneText_normal "$" _).2.2.1 h⟩

end MailMerge.Format
