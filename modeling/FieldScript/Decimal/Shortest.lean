/-!
# The fewest digits that read back

A finite floating-point number is a whole mantissa times a power of two. Everything that turns such a
number into decimal text works on this exact form.

Every floating-point number is the nearest one to all reals of an interval around it. The shortest
decimal of the number is the decimal of that interval with the fewest digits and, among those, the
nearest. On the grid of decimals with a given number of digits only the two neighbours of the number
need to be tried.
-/

namespace FieldScript.Decimal

/-! ## Floating-point numbers as exact fractions -/

/-- The parts of a floating-point number. -/
inductive Binary where
  | nan
  | infinite (negative : Bool)
  /-- The number `± mantissa * 2 ^ exponent`. -/
  | finite (negative : Bool) (mantissa : Nat) (exponent : Int)
deriving DecidableEq, Repr

/-- Takes a floating-point number apart. -/
def Binary.ofFloat (x : Float) : Binary :=
  let bits := x.toBits.toNat
  let negative := bits / Nat.pow 2 63 == 1
  let exponent : Nat := bits / Nat.pow 2 52 % Nat.pow 2 11
  let fraction := bits % Nat.pow 2 52
  if exponent = 2047 then
    if fraction = 0 then .infinite negative else .nan
  else if exponent = 0 then .finite negative fraction (-1074)
  else .finite negative (Nat.pow 2 52 + fraction) ((exponent : Int) - 1075)

/-- A non-negative fraction. -/
structure Fraction where
  num : Nat
  den : Nat
deriving DecidableEq, Repr

/-- `base ^ exponent` as a fraction. -/
def Fraction.pow (base : Nat) (exponent : Int) : Fraction :=
  if 0 ≤ exponent then ⟨Nat.pow base exponent.toNat, 1⟩ else ⟨1, Nat.pow base (-exponent).toNat⟩

/-- The product of a whole number and a fraction. -/
def Fraction.scale (n : Nat) (f : Fraction) : Fraction := ⟨n * f.num, f.den⟩

/-- The order of two fractions. -/
def Fraction.le (a b : Fraction) : Bool := a.num * b.den ≤ b.num * a.den

def Fraction.lt (a b : Fraction) : Bool := a.num * b.den < b.num * a.den

/-- Where a value half way between two neighbours goes. -/
inductive Tie where
  | up
  | toEven
deriving DecidableEq, Repr

/-- The whole number nearest to `num / den`. -/
def roundDiv (tie : Tie) (num den : Nat) : Nat :=
  let quotient := num / den
  let rest := num % den
  if 2 * rest < den then quotient
  else if den < 2 * rest then quotient + 1
  else
    match tie with
    | .up => quotient + 1
    | .toEven => if quotient % 2 = 0 then quotient else quotient + 1

/-! ## Decimals -/

/-- The decimal `digits * 10 ^ power`. -/
structure Scientific where
  digits : Nat
  power : Int
deriving DecidableEq, Repr

/-- The number of decimal digits of a positive number. -/
def digitCount (n : Nat) : Nat := (Nat.toDigits 10 n).length

/-- The exponent `e` with `10 ^ e ≤ num / den < 10 ^ (e + 1)`, for a positive fraction. -/
def decimalExponent (f : Fraction) : Int :=
  if f.den ≤ f.num then (digitCount (f.num / f.den) : Int) - 1
  else
    let bound := (f.den + f.num - 1) / f.num
    if bound ≤ 1 then 0 else -(digitCount (bound - 1) : Int)

/-- Whether a decimal lies between two bounds, which count themselves if `closed`. -/
def within (closed : Bool) (low high d : Fraction) : Bool :=
  if closed then low.le d && d.le high else low.lt d && d.lt high

/-- The decimal of the interval on the grid of multiples of `10 ^ power` that is nearest to
`value`, if the interval holds one. -/
def onGrid? (tie : Tie) (closed : Bool) (value low high : Fraction) (power : Int) : Option Scientific :=
  let unit := Fraction.pow 10 power
  let num := value.num * unit.den
  let den := value.den * unit.num
  let below := num / den
  let nearest := roundDiv tie num den
  let other := if nearest = below then below + 1 else below
  let hit (n : Nat) : Bool := within closed low high (unit.scale n)
  if hit nearest then some ⟨nearest, power⟩
  else if hit other then some ⟨other, power⟩
  else none

/-- Drops zeros at the end of the digits. The fuel bounds their number. -/
def Scientific.normalise : Nat → Scientific → Scientific
  | 0, d => d
  | fuel + 1, d =>
    if d.digits ≠ 0 ∧ d.digits % 10 = 0 then normalise fuel ⟨d.digits / 10, d.power + 1⟩ else d

/-- The shortest decimal of the positive number `mantissa * 2 ^ exponent`. -/
def shortest (tie : Tie) (mantissa : Nat) (exponent : Int) : Scientific :=
  let quarter := Fraction.pow 2 (exponent - 2)
  let value := quarter.scale (4 * mantissa)
  let step := if mantissa = Nat.pow 2 52 ∧ -1074 < exponent then 1 else 2
  let low := quarter.scale (4 * mantissa - step)
  let high := quarter.scale (4 * mantissa + 2)
  let top := decimalExponent value
  let found := (List.range 17).findSome? fun (n : Nat) =>
    onGrid? tie (mantissa % 2 == 0) value low high (top - n)
  match found with
  | some d => d.normalise 18
  | none => ⟨mantissa, 0⟩

end FieldScript.Decimal
