import FieldScript.Decimal.Shortest

/-!
# Layouts of decimal numbers

A `Layout` holds the decisions of a number format: which exponents are written without a power of
ten, whether a whole number keeps a fraction, and how the special values are spelled. `fixedText` is the layout with a
fixed number of places: the exact value of a number rounded to them, a tie going to the even neighbour.
-/

namespace FieldScript.Decimal

/-- The decisions of a number format. -/
structure Layout where
  /-- Decimal exponents that are written positionally. -/
  positional : Int → Bool
  /-- Whether a whole number is written with a fraction of zero. -/
  wholeFraction : Bool
  /-- Where a tie between two shortest decimals goes. -/
  tie : Tie
  /-- Whether zero keeps its sign. -/
  signedZero : Bool
  nan : String
  infinity : String

/-- The decimal digits of a number. -/
def digitChars (n : Nat) : List Char := Nat.toDigits 10 n

/-- A decimal without a power of ten. -/
def positionalText (wholeFraction : Bool) (d : Scientific) : List Char :=
  let digits := digitChars d.digits
  if 0 ≤ d.power then
    digits ++ List.replicate d.power.toNat '0' ++ (if wholeFraction then ['.', '0'] else [])
  else
    let places := (-d.power).toNat
    if places < digits.length then
      digits.take (digits.length - places) ++ '.' :: digits.drop (digits.length - places)
    else
      '0' :: '.' :: List.replicate (places - digits.length) '0' ++ digits

/-- A decimal with one digit in front of the point and a signed power of ten. -/
def scientificText (d : Scientific) : List Char :=
  let digits := digitChars d.digits
  let exponent := d.power + (digits.length - 1 : Nat)
  let fraction := if digits.length ≤ 1 then [] else '.' :: digits.drop 1
  let sign := if exponent < 0 then '-' else '+'
  digits.take 1 ++ fraction ++ 'e' :: sign :: digitChars exponent.natAbs

/-- The text of a number in a layout. -/
def Layout.render (layout : Layout) (x : Float) : String :=
  match Binary.ofFloat x with
  | .nan => layout.nan
  | .infinite negative => if negative then "-" ++ layout.infinity else layout.infinity
  | .finite negative 0 _ =>
    (if negative && layout.signedZero then "-" else "") ++
      String.ofList (positionalText layout.wholeFraction ⟨0, 0⟩)
  | .finite negative mantissa exponent =>
    let d := shortest layout.tie mantissa exponent
    let top := d.power + ((digitChars d.digits).length - 1 : Nat)
    let text :=
      if layout.positional top then positionalText layout.wholeFraction d else scientificText d
    (if negative then "-" else "") ++ String.ofList text

/-! ## A fixed number of places -/

/-- Splits the last `places` digits off by a point. -/
def placePoint (places : Nat) (n : Nat) : List Char :=
  let digits := digitChars n
  let padded := List.replicate (places + 1 - digits.length) '0' ++ digits
  if places = 0 then padded
  else padded.take (padded.length - places) ++ '.' :: padded.drop (padded.length - places)

/-- The text of a finite number with exactly `places` decimal places. -/
def fixedText (places : Nat) (negative : Bool) (mantissa : Nat) (exponent : Int) : String :=
  let value := (Fraction.pow 2 exponent).scale mantissa
  let scaled := roundDiv .toEven (value.num * Nat.pow 10 places) value.den
  (if negative then "-" else "") ++ String.ofList (placePoint places scaled)

end FieldScript.Decimal
