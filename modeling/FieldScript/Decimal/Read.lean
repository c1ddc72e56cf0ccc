import FieldScript.Text.Class

/-!
# Reading decimal numbers

The number nearest to a decimal text: digits with at most one point, at least one digit, and an
optional power of ten.
-/

namespace FieldScript.Decimal

open FieldScript.Text (isDigit digitsValue)

/-- The number nearest to `digits * 10 ^ power`. Powers far outside the range of numbers are
settled without computing them. -/
def nearest (digits : Nat) (power : Int) : Float :=
  if digits = 0 then 0.0
  else
    let size := (Nat.toDigits 10 digits).length
    if power + size > 400 then 1.0 / 0.0
    else if power + size < -400 then 0.0
    else if 0 ≤ power then Float.ofScientific digits false power.toNat
    else Float.ofScientific digits true (-power).toNat

/-- The power of ten at the end of a decimal text, zero if there is none. -/
def readPower? : List Char → Option Int
  | [] => some 0
  | mark :: rest =>
    if mark = 'e' ∨ mark = 'E' then
      let (negative, digits) :=
        match rest with
        | '-' :: digits => (true, digits)
        | '+' :: digits => (false, digits)
        | digits => (false, digits)
      if digits.isEmpty || !digits.all isDigit then none
      else
        let size := digitsValue 10 digits
        some (if negative then -(size : Int) else size)
    else none

/-- Reads a decimal text without a sign. -/
def readUnsigned? (text : List Char) : Option Float :=
  let whole := text.takeWhile isDigit
  let rest := text.dropWhile isDigit
  let (fraction, rest) :=
    match rest with
    | '.' :: rest => (rest.takeWhile isDigit, rest.dropWhile isDigit)
    | rest => ([], rest)
  if whole.isEmpty && fraction.isEmpty then none
  else
    (readPower? rest).map fun power =>
      nearest (digitsValue 10 (whole ++ fraction)) (power - fraction.length)

/-- Reads a decimal text with an optional sign. -/
def read? : List Char → Option Float
  | '-' :: text => (readUnsigned? text).map fun x => -x
  | '+' :: text => readUnsigned? text
  | text => readUnsigned? text

end FieldScript.Decimal
