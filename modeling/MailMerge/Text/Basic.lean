/-!
# Text

A text is a list of characters, so that an offset counts characters and a proof can follow the
list. Here are the cuts and joins that the rest of the library is written with: a leading part,
the first and the last occurrence of a part, splitting at a character, and joining.
-/

namespace MailMerge

/-- A sequence of characters. -/
abbrev Text := List Char

instance : Coe String Text := ⟨String.toList⟩

namespace Text

/-! ## Cutting -/

/-- What follows `part` in a text that starts with it. -/
def dropStart? : (part t : Text) → Option Text
  | [], t => some t
  | _ :: _, [] => none
  | p :: part, c :: t => if p = c then dropStart? part t else none

/-- The text starts with `part`. -/
def startsWith (part t : Text) : Bool :=
  (dropStart? part t).isSome

/-- The text ends with `part`. -/
def endsWith (part t : Text) : Bool :=
  startsWith part.reverse t.reverse

/-- The texts before and after the first occurrence of `part`. -/
def cutFirst? (part t : Text) : Option (Text × Text) :=
  match dropStart? part t with
  | some after => some ([], after)
  | none =>
    match t with
    | [] => none
    | c :: rest => (cutFirst? part rest).map fun (before, after) => (c :: before, after)

/-- The texts before and after the last occurrence of `part`. -/
def cutLast? (part : Text) : Text → Option (Text × Text)
  | [] => (dropStart? part []).map fun after => ([], after)
  | c :: rest =>
    match cutLast? part rest with
    | some (before, after) => some (c :: before, after)
    | none => (dropStart? part (c :: rest)).map fun after => ([], after)

/-- `part` occurs in the text. -/
def contains (part t : Text) : Bool :=
  (cutFirst? part t).isSome

/-- The characters from offset `first` up to, and without, offset `last`. -/
def slice (t : Text) (first last : Nat) : Text :=
  (t.take last).drop first

/-! ## Splitting and joining -/

/-- The pieces between the occurrences of `sep`; there is always at least one. -/
def splitOn (sep : Char) : Text → List Text
  | [] => [[]]
  | c :: rest =>
    if c = sep then
      [] :: splitOn sep rest
    else
      match splitOn sep rest with
      | [] => [[c]]
      | piece :: pieces => (c :: piece) :: pieces

/-- The texts in order, with `sep` between neighbours. -/
def join (sep : Text) : List Text → Text
  | [] => []
  | [t] => t
  | t :: rest => t ++ sep ++ join sep rest

/-- The lines of a text; a final newline is followed by an empty line. -/
def lines (t : Text) : List Text :=
  splitOn '\n' t

/-- The lines as one text. -/
def unlines (ls : List Text) : Text :=
  join ['\n'] ls

/-- Every occurrence of the character is left out. -/
def without (c : Char) (t : Text) : Text :=
  t.filter (· != c)

/-! ## Numerals -/

/-- The decimal digits of a number. -/
def ofNat (n : Nat) : Text :=
  Nat.toDigits 10 n

/-- The decimal digits of a number, after a minus sign where it is negative. -/
def ofInt : Int → Text
  | .ofNat n => ofNat n
  | .negSucc n => '-' :: ofNat (n + 1)

/-- The digits of a number, filled up with zeros on the left to a width. -/
def padded (width n : Nat) : Text :=
  let digits := ofNat n
  List.replicate (width - digits.length) '0' ++ digits

/-! ## Laws -/

theorem eq_append_of_dropStart? {part t after : Text} (h : dropStart? part t = some after) :
    t = part ++ after := by
  induction part generalizing t with
  | nil => simpa [dropStart?] using h
  | cons p part ih =>
    cases t with
    | nil => simp [dropStart?] at h
    | cons c t =>
      by_cases hc : p = c
      · simp only [dropStart?, if_pos hc] at h
        rw [ih h, hc]; rfl
      · simp [dropStart?, hc] at h

theorem eq_append_of_cutFirst? {part t before after : Text}
    (h : cutFirst? part t = some (before, after)) : t = before ++ part ++ after := by
  induction t generalizing before with
  | nil =>
    cases part with
    | nil =>
      simp only [cutFirst?, dropStart?, Option.some.injEq, Prod.mk.injEq] at h
      obtain ⟨rfl, rfl⟩ := h
      rfl
    | cons p part => simp [cutFirst?, dropStart?] at h
  | cons c t ih =>
    rw [cutFirst?] at h
    split at h
    · next rest hd =>
      simp only [Option.some.injEq, Prod.mk.injEq] at h
      obtain ⟨rfl, rfl⟩ := h
      simpa using eq_append_of_dropStart? hd
    · obtain ⟨⟨b, a⟩, hb, he⟩ := Option.map_eq_some_iff.1 h
      simp only [Prod.mk.injEq] at he
      obtain ⟨rfl, rfl⟩ := he
      rw [ih hb]
      simp

/-- A cut keeps no more than what is left without the part that was found. -/
theorem length_of_cutFirst? {part t before after : Text}
    (h : cutFirst? part t = some (before, after)) :
    before.length + part.length + after.length = t.length := by
  rw [eq_append_of_cutFirst? h]
  simp [Nat.add_assoc]

end Text
end MailMerge
