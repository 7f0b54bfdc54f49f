import MailMerge.Proofs.Condition.Recognition
import MailMerge.Proofs.Condition.Spelling
import MailMerge.Proofs.Number.Digits

/-!
# Conditions that compare whole numbers

Less and greater compare the floating-point values that are nearest to two numbers, and so does equality
if one of the two is given by its numeral; equality of two numbers is exact. So three comparisons of the
same two numbers come out right as long as rounding does not bring the numbers together.

**`evaluate_orders_iff`**: the numbers for which the comparisons come out right, among them all of at most
53 bits.
-/

namespace MailMerge.Condition

open Binary64 (nearestInt key Fits IsExact)

variable {fields : Fields} {x y : Value} {m n : Int}

/-! ## Comparing two fields -/

theorem parse_comparison (op : Comparison) :
    parse (Text.join " " ["a", op.sign, "b"]) = .ok (.compare op (.field "a") (.field "b")) := by
  have hname : ∀ c ∈ ['a', 'b'], Spells (.name [c]) [c] := by
    intro c hc
    have hstart : isNameStart c ∧ keywords.lookup (Text.upper [c]) = none := by
      revert c
      decide +kernel
    exact .name ⟨c, [], [], hstart.1, by simp, by simp, rfl⟩ hstart.2
  exact parse_compare op (hname 'a' (by simp)) (hname 'b' (by simp)) rfl rfl

/-- The value of a field that leads somewhere. -/
theorem value_field {path : Text} (h : fields path = .ok x) (hx : x ≠ .unresolved) :
    (Operand.field path).value fields = .ok x := by
  rw [Operand.value, h]
  cases x <;> first | rfl | contradiction

/-- A comparison of two fields that lead somewhere compares their values. -/
theorem evaluate_comparison (op : Comparison) (ha : fields "a" = .ok x) (hb : fields "b" = .ok y)
    (hx : x ≠ .unresolved) (hy : y ≠ .unresolved) :
    evaluate fields (Text.join " " ["a", op.sign, "b"]) = (compareValues op x y).mapError .fault := by
  have htrim : Text.trim (Text.join " " ["a", op.sign, "b"]) = Text.join " " ["a", op.sign, "b"] := by
    cases op <;> decide
  have hparse := parse_comparison op
  rw [← htrim] at hparse
  rw [evaluate_compare hparse, value_field ha hx, value_field hb hy]
  rfl

/-! ## Numbers and numerals -/

theorem toNumber_int (h : Fits n) : (Value.int n).toNumber = .ok (nearestInt n) := by
  rw [Value.toNumber, Binary64.ofInt?_eq_some h]
  rfl

theorem toNumber_int_of_not_fits (h : ¬ Fits n) : (Value.int n).toNumber = .error .largeNumber := by
  rw [Value.toNumber, Binary64.ofInt?_eq_none_iff.2 (Nat.le_of_not_lt h)]
  rfl

theorem toNumber_ofInt (n : Int) : (Value.text (Text.ofInt n)).toNumber = .ok (nearestInt n) := by
  rw [Value.toNumber, Text.allBlank_ofInt, Text.trim_ofInt, Numeral.decimal?_ofInt,
    if_neg Bool.false_ne_true, Option.getD_some]

theorem numeralEquals_ofInt (m n : Int) :
    Value.numeralEquals (Text.ofInt n) (.whole m) = (nearestInt n).equalsInt m := by
  rw [Value.numeralEquals, Text.allBlank_ofInt, Text.trim_ofInt, Numeral.decimal?_ofInt,
    if_neg Bool.false_ne_true, Option.getD_some, Number.equal]

/-- Less and greater compare numbers. -/
theorem compareValues_of_toNumber {u v : Binary64} (hx : x.toNumber = .ok u) (hy : y.toNumber = .ok v) :
    compareValues .less x y = .ok ((u.compare? v).any (admits .less)) ∧
      compareValues .greater x y = .ok ((u.compare? v).any (admits .greater)) := by
  have hcompare : ∀ op, (do return ((← x.toNumber).compare? (← y.toNumber)).any (admits op) :
      Except Fault Bool) = .ok ((u.compare? v).any (admits op)) := by
    intro op
    rw [hx, hy]
    rfl
  exact ⟨hcompare .less, hcompare .greater⟩

theorem any_admits_of_comparesAs {u v : Binary64} {a b : Int} (h : Binary64.ComparesAs u v a b) :
    (u.compare? v).any (admits .less) = decide (a < b) ∧
      (u.compare? v).any (admits .greater) = decide (b < a) ∧ u.equal v = decide (a = b) := by
  unfold Binary64.equal
  obtain ⟨hab, h⟩ | ⟨hab, h⟩ | ⟨hab, h⟩ := h
  · rw [h, decide_eq_true hab, decide_eq_false (by omega), decide_eq_false (by omega)]
    decide
  · rw [h, decide_eq_true hab, decide_eq_false (by omega), decide_eq_false (by omega)]
    decide
  · rw [h, decide_eq_true hab, decide_eq_false (by omega), decide_eq_false (by omega)]
    decide

/-! ## Numbers that meet -/

/-- Rounding brings two different numbers together. -/
def Meet (m n : Int) : Prop :=
  m ≠ n ∧ (nearestInt m).equal (nearestInt n)

theorem meet_iff : Meet m n ↔ m ≠ n ∧ key (nearestInt m) = key (nearestInt n) := by
  rw [Meet, (any_admits_of_comparesAs (Binary64.comparesAs_nearestInt m n)).2.2, decide_eq_true_eq]

theorem Meet.symm (h : Meet m n) : Meet n m :=
  meet_iff.2 ⟨h.1.symm, (meet_iff.1 h).2.symm⟩

/-- The nearest values are in the order of the numbers unless they meet. -/
theorem order_iff_not_meet : (decide (key (nearestInt m) < key (nearestInt n)) = decide (m < n) ∧
    decide (key (nearestInt n) < key (nearestInt m)) = decide (n < m)) ↔ ¬ Meet m n := by
  have hle := fun h : m ≤ n => Binary64.key_nearestInt_mono h
  have hge := fun h : n ≤ m => Binary64.key_nearestInt_mono h
  have hsame : m = n → key (nearestInt m) = key (nearestInt n) := fun h => by rw [h]
  rw [meet_iff, decide_eq_decide, decide_eq_decide]
  generalize key (nearestInt m) = a at hle hge hsame ⊢
  generalize key (nearestInt n) = b at hle hge hsame ⊢
  omega

/-- Numbers that are kept do not meet. -/
theorem not_meet_of_isExact (hm : IsExact m) (hn : IsExact n) : ¬ Meet m n := by
  intro h
  obtain ⟨hne, hkey⟩ := meet_iff.1 h
  rw [Binary64.key_of_equalsInt hm, Binary64.key_of_equalsInt hn] at hkey
  exact hne (Int.eq_of_mul_eq_mul_right (Int.natCast_ne_zero.2 (Nat.ne_of_gt Binary64.one_pos)) hkey)

/-- Numbers that do not meet are equal by the numeral of one of them only if it is kept. -/
theorem equalsInt_nearestInt (h : ¬ Meet m n) : (nearestInt n).equalsInt m ↔ m = n ∧ IsExact n := by
  constructor
  · intro he
    have hm : IsExact m := Binary64.isExact_of_equalsInt he
    have hmn : m = n := by
      by_contra hne
      exact h (meet_iff.2 ⟨hne, (Binary64.key_of_equalsInt hm).trans (Binary64.key_of_equalsInt he).symm⟩)
    exact ⟨hmn, hmn ▸ hm⟩
  · rintro ⟨rfl, hn⟩
    exact hn

/-! ## The three comparisons -/

/-- Two values that stand for two whole numbers: the numbers, or one of the two as its numeral. -/
inductive Given (m n : Int) : Value → Value → Prop
  | numbers : Given m n (.int m) (.int n)
  | right : Given m n (.int m) (.text (Text.ofInt n))
  | left : Given m n (.text (Text.ofInt m)) (.int n)

/-- The comparisons of `a` and `b` come out as those of two whole numbers, of which exactly one holds. -/
structure OrdersAs (fields : Fields) (m n : Int) : Prop where
  less : evaluate fields "a < b" = .ok (decide (m < n))
  equal : evaluate fields "a == b" = .ok (decide (m = n))
  greater : evaluate fields "a > b" = .ok (decide (n < m))

theorem ordersAs_iff (ha : fields "a" = .ok x) (hb : fields "b" = .ok y) (h : Given m n x y) :
    OrdersAs fields m n ↔ compareValues .less x y = .ok (decide (m < n)) ∧
      x.looseEquals y = .ok (decide (m = n)) ∧ compareValues .greater x y = .ok (decide (n < m)) := by
  have hx : x ≠ .unresolved := by
    cases h <;> exact nofun
  have hy : y ≠ .unresolved := by
    cases h <;> exact nofun
  have heval : ∀ op b, evaluate fields (Text.join " " ["a", op.sign, "b"]) = .ok b ↔
      compareValues op x y = .ok b := by
    intro op b
    rw [evaluate_comparison op ha hb hx hy, mapError_eq_ok_iff]
  constructor
  · rintro ⟨hless, hequal, hgreater⟩
    exact ⟨(heval .less _).1 hless, (heval .equal _).1 hequal, (heval .greater _).1 hgreater⟩
  · rintro ⟨hless, hequal, hgreater⟩
    exact ⟨(heval .less _).2 hless, (heval .equal _).2 hequal, (heval .greater _).2 hgreater⟩

/-- The value is no integer that is too large. -/
def Small (x : Value) : Prop :=
  ∀ k, x = .int k → Fits k

theorem small_int : Small (.int n) ↔ Fits n := by
  constructor
  · exact fun h => h n rfl
  · rintro h k heq
    cases heq
    exact h

theorem small_text (t : Text) : Small (.text t) :=
  nofun

/-- The numbers of the two values are the nearest values, unless there is none. -/
theorem Given.toNumber (h : Given m n x y) :
    Small x ∧ Small y ∧ x.toNumber = .ok (nearestInt m) ∧ y.toNumber = .ok (nearestInt n) ∨
      ¬ (Small x ∧ Small y) ∧ compareValues .less x y = .error .largeNumber := by
  have hleft : x.toNumber = .error .largeNumber → compareValues .less x y = .error .largeNumber := by
    intro hx
    show (x.toNumber >>= _) = _
    rw [hx]
    rfl
  have hright : ∀ {u}, x.toNumber = .ok u → y.toNumber = .error .largeNumber →
      compareValues .less x y = .error .largeNumber := by
    intro u hx hy
    show (x.toNumber >>= fun _ => y.toNumber >>= _) = _
    rw [hx, hy]
    rfl
  cases h with
  | numbers =>
    rw [small_int, small_int]
    by_cases hm : Fits m
    · by_cases hn : Fits n
      · exact .inl ⟨hm, hn, toNumber_int hm, toNumber_int hn⟩
      · exact .inr ⟨fun h => hn h.2, hright (toNumber_int hm) (toNumber_int_of_not_fits hn)⟩
    · exact .inr ⟨fun h => hm h.1, hleft (toNumber_int_of_not_fits hm)⟩
  | right =>
    rw [small_int]
    by_cases hm : Fits m
    · exact .inl ⟨hm, small_text _, toNumber_int hm, toNumber_ofInt n⟩
    · exact .inr ⟨fun h => hm h.1, hleft (toNumber_int_of_not_fits hm)⟩
  | left =>
    rw [small_int]
    by_cases hn : Fits n
    · exact .inl ⟨small_text _, hn, toNumber_ofInt m, toNumber_int hn⟩
    · exact .inr ⟨fun h => hn h.2, hright (toNumber_ofInt m) (toNumber_int_of_not_fits hn)⟩

theorem Given.looseEquals (h : Given m n x y) (hmeet : ¬ Meet m n) :
    x.looseEquals y = .ok (decide (m = n)) ↔ (m = n → x = y ∨ IsExact n) := by
  have hexact : ∀ {p q : Int}, ¬ Meet p q →
      (Except.ok ((nearestInt q).equalsInt p) = (.ok (decide (p = q)) : Except Fault Bool) ↔
        (p = q → IsExact q)) := by
    intro p q hpq
    rw [Except.ok.injEq, Bool.eq_iff_iff, equalsInt_nearestInt hpq, decide_eq_true_eq]
    exact and_iff_left_iff_imp
  cases h with
  | numbers =>
    have hequal : (Value.int m).looseEquals (.int n) = .ok (m == n) := rfl
    rw [hequal]
    exact iff_of_true rfl fun h => .inl (congrArg Value.int h)
  | right =>
    have hequal : (Value.int m).looseEquals (.text (Text.ofInt n)) =
        .ok (Value.numeralEquals (Text.ofInt n) (.whole m)) := rfl
    rw [hequal, numeralEquals_ofInt, hexact hmeet]
    simp
  | left =>
    have hequal : (Value.text (Text.ofInt m)).looseEquals (.int n) =
        .ok (Value.numeralEquals (Text.ofInt m) (.whole n)) := rfl
    have hsides : decide (m = n) = decide (n = m) := decide_eq_decide.2 eq_comm
    rw [hequal, numeralEquals_ofInt, hsides, hexact fun h => hmeet h.symm]
    constructor
    · exact fun h hmn => .inr (hmn ▸ h hmn.symm)
    · exact fun h hnm => hnm ▸ (h hnm.symm).resolve_left nofun

/-- **Two whole numbers are ordered as they are just if they are not too large and rounding does not
bring them together, and if, given by a numeral, an equal number is kept.** That holds of all numbers
of at most 53 bits. -/
theorem evaluate_orders_iff (ha : fields "a" = .ok x) (hb : fields "b" = .ok y) (h : Given m n x y) :
    (OrdersAs fields m n ↔
      Small x ∧ Small y ∧ ¬ Meet m n ∧ (m = n → x = y ∨ IsExact n)) ∧
    (m.natAbs ≤ 2 ^ 53 → n.natAbs ≤ 2 ^ 53 → OrdersAs fields m n) := by
  have hiff : OrdersAs fields m n ↔
      Small x ∧ Small y ∧ ¬ Meet m n ∧ (m = n → x = y ∨ IsExact n) := by
    rw [ordersAs_iff ha hb h]
    obtain ⟨hsx, hsy, hx, hy⟩ | ⟨hlarge, herror⟩ := h.toNumber
    · obtain ⟨hless, hgreater⟩ := compareValues_of_toNumber hx hy
      obtain ⟨hlt, hgt, -⟩ := any_admits_of_comparesAs (Binary64.comparesAs_nearestInt m n)
      rw [hless, hgreater, hlt, hgt, Except.ok.injEq, Except.ok.injEq]
      constructor
      · rintro ⟨hless, hequal, hgreater⟩
        have hmeet := order_iff_not_meet.1 ⟨hless, hgreater⟩
        exact ⟨hsx, hsy, hmeet, (h.looseEquals hmeet).1 hequal⟩
      · rintro ⟨-, -, hmeet, hkept⟩
        obtain ⟨hless, hgreater⟩ := order_iff_not_meet.2 hmeet
        exact ⟨hless, (h.looseEquals hmeet).2 hkept, hgreater⟩
    · constructor
      · rintro ⟨hless, -⟩
        cases herror.symm.trans hless
      · exact fun ⟨hsx, hsy, _⟩ => absurd ⟨hsx, hsy⟩ hlarge
  refine ⟨hiff, fun hm hn => hiff.2 ?_⟩
  have hexact := Binary64.isExact_of_le hm
  have hexact' := Binary64.isExact_of_le hn
  have hsmall : Small x ∧ Small y := by
    have hfm := (Binary64.isExact_iff.1 hexact).1
    have hfn := (Binary64.isExact_iff.1 hexact').1
    cases h with
    | numbers => exact ⟨small_int.2 hfm, small_int.2 hfn⟩
    | right => exact ⟨small_int.2 hfm, small_text _⟩
    | left => exact ⟨small_text _, small_int.2 hfn⟩
  exact ⟨hsmall.1, hsmall.2, not_meet_of_isExact hexact hexact', fun _ => .inr hexact'⟩

theorem evaluate_orders_meeting :
    OrdersAs (Value.field (.record [("a", .int 2), ("b", .text "3")])) 2 3 ∧
      ¬ OrdersAs (Value.field (.record [("a", .int 9007199254740993), ("b", .int 9007199254740992)]))
        9007199254740993 9007199254740992 := by
  have hmeet : Meet 9007199254740993 9007199254740992 := ⟨by decide, by decide +kernel⟩
  constructor
  · exact (evaluate_orders_iff (x := .int 2) (y := .text "3") rfl rfl .right).2 (by decide) (by decide)
  · intro h
    exact ((evaluate_orders_iff rfl rfl .numbers).1.1 h).2.2.1 hmeet

end MailMerge.Condition
