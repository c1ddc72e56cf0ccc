import FieldScript.Eval.Property

/-!
# Methods of arrays that call nothing
-/

namespace FieldScript

/-- The elements of arrays within arrays, to a number of levels. The first argument bounds the levels
that there can be without an array that contains itself. -/
def flattened (s : Store) : Nat → Nat → List Value → Except Abort (List Value)
  | _, 0, items => .ok items
  | bound, levels + 1, items => do
    let parts ← items.mapM fun item =>
      match item with
      | .array a =>
        match bound with
        | 0 => .error .cyclic
        | bound + 1 => flattened s bound levels (s.array a).toList
      | other => .ok [other]
    return parts.flatten

/-- Flattens elements by a number of levels. -/
def flatten (levels : Nat) (items : List Value) : Act (List Value) :=
  Act.read fun s => flattened s s.arrays.size levels items

/-- The position of the last element with a property. -/
def lastIndex? (p : Value → Bool) (items : List Value) : Option Nat :=
  (items.reverse.findIdx? p).map (items.length - 1 - ·)

namespace ArrayMethod

/-- A position as a number, and minus one if there is none. -/
def position (found : Option Nat) : Value :=
  .number (match found with
    | some i => Float.ofNat i
    | none => -1.0)

/-- Calls a method on an array. -/
def call (m : ArrayMethod) (a : ArrayRef) (args : List Value) : Act Value := do
  let write (f : Array Value → Array Value) : Act Unit := modify fun s => s.modifyArray a f
  let items := (← get).array a
  let needle := argument args 0
  match m with
  | .push =>
    write (· ++ args.toArray)
    return .number (Float.ofNat (items.size + args.length))
  | .pop =>
    write (·.pop)
    return items.back?.getD .undefined
  | .shift =>
    write (·.drop 1)
    return items[0]?.getD .undefined
  | .unshift =>
    write (args.toArray ++ ·)
    return .number (Float.ofNat (items.size + args.length))
  | .join =>
    let separator ← match needle with
      | .undefined => pure ","
      | v => v.toText
    let parts ← items.toList.mapM fun v => if v.isNullish then pure "" else v.toText
    return .string (separator.intercalate parts)
  | .toString => return .string (← (Value.array a).toText)
  | .includes => return .bool (items.any (·.sameValueZero needle))
  | .indexOf => return position (items.toList.findIdx? (·.strictEquals needle))
  | .lastIndexOf => return position (lastIndex? (·.strictEquals needle) items.toList)
  | .slice =>
    let start ← relativePosition (argument args 0) items.size 0
    let stop ← relativePosition (argument args 1) items.size items.size
    Change.newArray (items.extract start stop)
  | .concat =>
    let s ← get
    let more := args.flatMap fun v =>
      match v with
      | .array b => (s.array b).toList
      | other => [other]
    Change.newArray (items ++ more.toArray)
  | .reverse =>
    write (·.reverse)
    return .array a
  | .flat =>
    let levels ← match needle with
      | .undefined => pure 1
      | v => do pure (Number.toCount (← v.toNumber))
    Change.newArray (← flatten levels items.toList).toArray

end ArrayMethod

end FieldScript
