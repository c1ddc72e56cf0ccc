import FieldScript.Eval.Convert

/-!
# Operators

What the operators make of two values.
-/

namespace FieldScript

namespace Value

/-- A truth value as the number it stands for, any other value as it is. -/
def withoutBool : Value → Value
  | .bool b => .number (if b then 1.0 else 0.0)
  | v => v

/-- Whether a value is compared by its text with numbers and texts. -/
def isCompound : Value → Bool
  | .array _ | .object _ => true
  | _ => false

/-- Equality with conversion of values that are no arrays and no objects. A number and a text are
compared as numbers. -/
def convertingEquals (a b : Value) : Bool :=
  match a, b with
  | .number x, .string t => x == Number.ofText t
  | .string t, .number x => Number.ofText t == x
  | a, b => a.strictEquals b

/-- Equality with conversion. -/
def looseEquals (a b : Value) : Act Bool :=
  if a.isNullish && b.isNullish then return true
  else if a.isNullish || b.isNullish then return false
  else
    match a.withoutBool, b.withoutBool with
    | .array x, .number y => do return convertingEquals (.string (← toText (.array x))) (.number y)
    | .array x, .string y => do return convertingEquals (.string (← toText (.array x))) (.string y)
    | .object x, .number y => do return convertingEquals (.string (← toText (.object x))) (.number y)
    | .object x, .string y => do return convertingEquals (.string (← toText (.object x))) (.string y)
    | .number x, .array y => do return convertingEquals (.number x) (.string (← toText (.array y)))
    | .string x, .array y => do return convertingEquals (.string x) (.string (← toText (.array y)))
    | .number x, .object y => do return convertingEquals (.number x) (.string (← toText (.object y)))
    | .string x, .object y => do return convertingEquals (.string x) (.string (← toText (.object y)))
    | a, b => return convertingEquals a b

/-- A value as it takes part in sums and comparisons: arrays, objects, functions and promises by
their texts. -/
def primitive (v : Value) : Act Value :=
  match v with
  | .array _ | .object _ | .function _ | .promise _ => do return .string (← v.toText)
  | v => return v

/-- How two values are ordered: texts by their characters, all else as numbers, which may have no
order. -/
def order? (a b : Value) : Act (Option Ordering) :=
  match a, b with
  | .string s, .string t => return some (compare s t)
  | a, b => do
    let x ← a.toNumber
    let y ← b.toNumber
    return if x < y then some .lt else if x == y then some .eq else if y < x then some .gt else none

end Value

namespace Number

/-- The shift distance that a 32-bit integer stands for. -/
def shiftCount (n : Int32) : Int32 := n &&& 31

end Number

/-- Whether the name of a property is the canonical text of an index that fits 64 bits. -/
def arrayIndex? (key : String) : Option Nat :=
  let digits := key.toList
  let n := Text.digitsValue 10 digits
  if digits.isEmpty || !digits.all Text.isDigit then none
  else if digits.head? = some '0' && 1 < digits.length then none
  else if n < Nat.pow 2 64 then some n else none

namespace BinaryOp

/-- Whether an order satisfies a comparison. -/
def admits (op : BinaryOp) (o : Ordering) : Bool :=
  match op with
  | .less => o.isLT
  | .greater => o.isGT
  | .lessEq => o.isLE
  | _ => o.isGE

/-- An operator on numbers. -/
def onNumbers (f : Float → Float → Float) (a b : Value) : Act Value := do
  let x ← a.toNumber
  let y ← b.toNumber
  return .number (f x y)

/-- An operator on 32-bit integers. -/
def onIntegers (f : Int32 → Int32 → Int32) (a b : Value) : Act Value := do
  let x ← a.toInt32
  let y ← b.toInt32
  return .number (Number.ofInt32 (f x y))

/-- A sum, or a concatenation if one of the operands is a text. -/
def sum (a b : Value) : Act Value := do
  match ← a.primitive, ← b.primitive with
  | .string s, r => return .string (s ++ (← r.toText))
  | l, .string t => return .string ((← l.toText) ++ t)
  | l, r => return .number ((← l.toNumber) + (← r.toNumber))

/-- Whether a property is in a value. -/
def search (a b : Value) : Act Value := do
  match b with
  | .object o =>
    let key ← a.toKey
    return .bool (((← get).object o).lookup key).isSome
  | .array r =>
    let key ← a.toKey
    let size := ((← get).array r).size
    return .bool (key == "length" || (arrayIndex? key).any (· < size))
  | other => do
    let key ← a.toKey
    Act.typeFault (.searchOperand key (← other.toText))

/-- The value of an operator. -/
def apply (op : BinaryOp) (a b : Value) : Act Value :=
  match op with
  | .add => sum a b
  | .sub => onNumbers (· - ·) a b
  | .mul => onNumbers (· * ·) a b
  | .div => onNumbers (· / ·) a b
  | .mod => onNumbers Number.remainder a b
  | .exp => onNumbers Float.pow a b
  | .eq => do return .bool (← a.looseEquals b)
  | .notEq => do return .bool (!(← a.looseEquals b))
  | .strictEq => return .bool (a.strictEquals b)
  | .strictNotEq => return .bool (!a.strictEquals b)
  | .less | .greater | .lessEq | .greaterEq => do
    let l ← a.primitive
    let r ← b.primitive
    return .bool ((← l.order? r).any op.admits)
  | .isIn => search a b
  | .instanceOf => Act.typeFault .instanceOf
  | .bitAnd => onIntegers (· &&& ·) a b
  | .bitOr => onIntegers (· ||| ·) a b
  | .bitXor => onIntegers (· ^^^ ·) a b
  | .shl => onIntegers (fun x y => x <<< Number.shiftCount y) a b
  | .shr => onIntegers (fun x y => x >>> Number.shiftCount y) a b
  | .ushr => do
    let y ← b.toInt32
    let x ← a.toInt32
    return .number (Float.ofNat (x.toUInt32 >>> (Number.shiftCount y).toUInt32).toNat)

end BinaryOp

/-- Whether the left operand decides a logical operator. -/
def LogicalOp.isDecided (op : LogicalOp) (left : Value) : Bool :=
  match op with
  | .and => !left.isTruthy
  | .or => left.isTruthy
  | .nullish => !left.isNullish

/-- The value of an operator with one operand, other than those that look at the operand's
expression. -/
def UnaryOp.apply (op : UnaryOp) (v : Value) : Act Value :=
  match op with
  | .not => return .bool (!v.isTruthy)
  | .neg => do return .number (-(← v.toNumber))
  | .plus => do return .number (← v.toNumber)
  | .bitNot => do return .number (Number.ofInt32 (~~~(← v.toInt32)))
  | .typeOf => return .string v.typeName
  | .void => return .undefined
  | .delete => return .bool true

end FieldScript
