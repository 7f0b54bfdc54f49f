import MailMerge.Text.Class

/-!
# Text as bytes

The UTF-8 form of a text, and the form of any bytes as hexadecimal digits.

**`ofBytes?_toBytes`**: what is written is read back.
-/

namespace MailMerge.Text

/-- The bytes of a text. -/
def toBytes (t : Text) : ByteArray :=
  (String.ofList t).toUTF8

/-- The text of bytes, if they are the bytes of a text. -/
def ofBytes? (b : ByteArray) : Option Text :=
  (String.fromUTF8? b).map String.toList

theorem ofBytes?_toBytes (t : Text) : ofBytes? (toBytes t) = some t := by
  have h : (toBytes t).IsValidUTF8 := (String.ofList t).isValidUTF8
  have e : String.fromUTF8 (toBytes t) h = String.ofList t := rfl
  simp [ofBytes?, String.fromUTF8?, h, e]

/-- Bytes as hexadecimal digits, two for each. -/
def hexOfBytes (b : ByteArray) : Text :=
  b.toList.flatMap fun x => hex 2 x.toNat

/-- The bytes that pairs of hexadecimal digits stand for. -/
def bytesOfHex? (t : Text) : Option ByteArray :=
  (pairs t).map fun bytes => ⟨bytes.toArray⟩
where
  /-- The numbers of pairs of digits. -/
  pairs : Text → Option (List UInt8)
    | [] => some []
    | [_] => none
    | a :: b :: rest => do
      let n ← numberIn? 16 [a, b]
      return n.toUInt8 :: (← pairs rest)

end MailMerge.Text
