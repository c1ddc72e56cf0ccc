import FieldScript.Text.Class

/-!
# Percent encoding

Bytes of a text written as a percent sign and two hexadecimal digits.
-/

namespace FieldScript.Text

/-- Characters that stand for themselves. -/
def isUnreserved (c : Char) : Bool :=
  c.isAlpha || isDigit c || ['-', '_', '.', '!', '~', '*', '\'', '(', ')'].contains c

/-- A percent sign and two upper-case digits. -/
def percentByte (b : UInt8) : List Char :=
  let digit (n : Nat) : Char := Char.ofNat (if n < 10 then 48 + n else 55 + n)
  ['%', digit (b.toNat / 16), digit (b.toNat % 16)]

/-- How one character is encoded. -/
def encodeChar (c : Char) : List Char :=
  if isUnreserved c then [c] else (String.utf8EncodeChar c).flatMap percentByte

/-- Encodes a text. -/
def percentEncode (text : String) : String :=
  String.ofList (text.toList.flatMap encodeChar)

/-- The byte that two characters behind a percent sign denote. A plus sign may stand in place of
the first digit. -/
def byteOfHex? (high low : Char) : Option UInt8 :=
  if isDigitOf 16 low then
    if high = '+' then some (UInt8.ofNat (digitValue low))
    else if isDigitOf 16 high then some (UInt8.ofNat (digitValue high * 16 + digitValue low))
    else none
  else none

/-- The bytes of an encoded text. -/
def percentBytes? : List Char → Option (List UInt8)
  | [] => some []
  | '%' :: high :: low :: rest => do
    let b ← byteOfHex? high low
    return b :: (← percentBytes? rest)
  | c :: rest =>
    if c = '%' then none
    else do
      return String.utf8EncodeChar c ++ (← percentBytes? rest)

/-- Decodes a text whose bytes are UTF-8. -/
def percentDecode? (text : String) : Option String :=
  (percentBytes? text.toList).bind fun bytes => String.fromUTF8? ⟨bytes.toArray⟩

end FieldScript.Text
