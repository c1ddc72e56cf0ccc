import FieldScript.Decimal.Layout
import FieldScript.Decimal.Read
import FieldScript.Text.Class

/-!
# Numbers of field bodies

Numbers are floating-point numbers. This module holds what the operators and functions of field
bodies need beyond the arithmetic of the processor: the remainder, 32-bit conversion, and the texts
that are written and read.
-/

namespace FieldScript.Number

open FieldScript.Decimal (Binary)
open FieldScript.Text (isDigit isDigitOf digitValue digitsValue)

def nan : Float := 0.0 / 0.0

def infinity : Float := 1.0 / 0.0

/-- Numbers as texts: never with a power of ten, and without a sign in front of zero. -/
def layout : Decimal.Layout where
  positional _ := true
  wholeFraction := false
  tie := .up
  signedZero := false
  nan := "NaN"
  infinity := "Infinity"

/-- The text of a number. -/
def text (x : Float) : String := layout.render x

/-- The whole part of a number. -/
def trunc (x : Float) : Float := if x < 0 then x.ceil else x.floor

/-- Whether a number is whole. -/
def isWhole (x : Float) : Bool := !x.isInf && x.floor == x

/-- The remainder of a division whose quotient is cut to a whole number. It has the sign of the
dividend. -/
def remainder (x y : Float) : Float :=
  match Binary.ofFloat x, Binary.ofFloat y with
  | .nan, _ => nan
  | _, .nan => nan
  | .infinite _, _ => nan
  | _, .infinite _ => x
  | .finite negative m e, .finite _ n f =>
    if n = 0 then nan
    else if m = 0 then x
    else
      let low := min e f
      let rest := (m * Nat.pow 2 (e - low).toNat) % (n * Nat.pow 2 (f - low).toNat)
      let size := (Float.ofNat rest).scaleB low
      if negative then -size else size

/-- The whole part of a number as an integer, zero if the number is not finite. -/
def whole (x : Float) : Int :=
  match Binary.ofFloat x with
  | .finite negative m e =>
    let size : Nat := if 0 ≤ e then m * Nat.pow 2 e.toNat else m / Nat.pow 2 (-e).toNat
    if negative then -(size : Int) else size
  | _ => 0

/-- A number as a 32-bit integer: its whole part, clamped to 64 bits, modulo `2 ^ 32`. -/
def toInt32 (x : Float) : Int32 :=
  let bound : Int := Nat.pow 2 63
  let clamped := max (-bound) (min (bound - 1) (whole x))
  Int32.ofInt clamped

/-- A number as a count: negative numbers and what is no number count as zero, and a count fits
64 bits. -/
def toCount (x : Float) : Nat := x.toUInt64.toNat

/-- The number of a 32-bit integer. -/
def ofInt32 (n : Int32) : Float := Float.ofInt n.toInt

/-- Hexadecimal digits behind an optional sign, as far as they fit 64 bits. -/
def readHex? (digits : List Char) : Option Int :=
  let (negative, digits) := match digits with
    | '-' :: rest => (true, rest)
    | '+' :: rest => (false, rest)
    | rest => (false, rest)
  let size := digitsValue 16 digits
  if digits.isEmpty || !digits.all (isDigitOf 16) then none
  else if negative then if size ≤ Nat.pow 2 63 then some (-(size : Int)) else none
  else if size < Nat.pow 2 63 then some size else none

/-- The number that a text denotes as a whole. Blanks around it do not matter, and an empty text is
zero. -/
def ofText (s : String) : Float :=
  let trimmed := Text.trim s.toList
  if trimmed.isEmpty then 0.0
  else if trimmed = "Infinity".toList || trimmed = "+Infinity".toList then infinity
  else if trimmed = "-Infinity".toList then -infinity
  else
    match trimmed with
    | '0' :: 'x' :: hex | '0' :: 'X' :: hex =>
      match readHex? hex with
      | some n => Float.ofInt n
      | none => nan
    | _ =>
      if trimmed.any fun c => c.isAlpha && c ≠ 'e' && c ≠ 'E' then nan
      else (Decimal.read? trimmed).getD nan

/-- The whole number at the start of a text in a radix. Radix zero means ten, or sixteen behind its
mark. -/
def readWhole (s : String) (radix : Nat) : Float :=
  let start := Text.trimStart s.toList
  let (negative, rest) := match start with
    | '-' :: rest => (true, rest)
    | '+' :: rest => (false, rest)
    | rest => (false, rest)
  let (radix, rest) : Nat × List Char :=
    if radix = 0 || radix = 16 then
      match rest with
      | '0' :: 'x' :: hex | '0' :: 'X' :: hex => (16, hex)
      | _ => (radix, rest)
    else (radix, rest)
  let radix := if radix = 0 then 10 else radix
  if radix < 2 || 36 < radix then nan
  else
    let digits := rest.takeWhile (isDigitOf radix)
    if digits.isEmpty then nan
    else
      let size := digits.foldl (fun acc d => acc * Float.ofNat radix + Float.ofNat (digitValue d)) 0.0
      if negative then -size else size

/-- The characters at the start of a text that may belong to a decimal number. -/
def decimalCandidate (previous : Option Char) (seenPoint seenPower : Bool) : List Char → List Char
  | [] => []
  | c :: rest =>
    if isDigit c then c :: decimalCandidate (some c) seenPoint seenPower rest
    else if c = '+' || c = '-' then
      if previous.isNone || previous = some 'e' || previous = some 'E' then
        c :: decimalCandidate (some c) seenPoint seenPower rest
      else []
    else if c = '.' && !seenPoint && !seenPower then
      c :: decimalCandidate (some c) true seenPower rest
    else if (c = 'e' || c = 'E') && !seenPower && previous.isSome then
      c :: decimalCandidate (some c) seenPoint true rest
    else []

/-- The number that the longest readable start of a text denotes; the argument is the text in
reverse. -/
def longestRead? : List Char → Option Float
  | [] => none
  | c :: rest =>
    match Decimal.read? (c :: rest).reverse with
    | some x => some x
    | none => longestRead? rest

/-- The decimal number at the start of a text. -/
def readDecimal (s : String) : Float :=
  let start := Text.trimStart s.toList
  match longestRead? (decimalCandidate none false false start).reverse with
  | some x => x
  | none =>
    if "Infinity".toList.isPrefixOf start || "+Infinity".toList.isPrefixOf start then infinity
    else if "-Infinity".toList.isPrefixOf start then -infinity
    else nan

/-- The text of a number with a fixed number of places. -/
def fixedText (x : Float) (places : Nat) : String :=
  match Binary.ofFloat x with
  | .nan => "NaN"
  | .infinite negative => if negative then "-inf" else "inf"
  | .finite negative m e => Decimal.fixedText places negative m e

/-- The whole number nearest to a number; halves go up. -/
def round (x : Float) : Float := (x + 0.5).floor

/-- One with the sign of a number. Zero and what is no number stay. -/
def sign (x : Float) : Float := if x.isNaN || x == 0 then x else if x < 0 then -1.0 else 1.0

/-- The larger of two numbers. -/
def larger (x y : Float) : Float := if x.isNaN || y.isNaN then nan else if x < y then y else x

/-- The smaller of two numbers. -/
def smaller (x y : Float) : Float := if x.isNaN || y.isNaN then nan else if y < x then y else x

end FieldScript.Number
