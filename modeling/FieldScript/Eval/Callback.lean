import FieldScript.Eval.ArrayMethod
import FieldScript.Eval.Comp

/-!
# Methods of arrays that call functions

Each method walks over the elements that the array has when it is called; what the function does to
the array meanwhile does not matter to the walk. The function gets the element, its position and the
array.
-/

namespace FieldScript

/-- Calls a value, which has to be a function. -/
def callValue (call : Function → List Value → Comp Value) (callee : Value) (args : List Value) :
    Comp Value :=
  match callee with
  | .function f => call f args
  | other => Act.typeFault (.notFunction other.typeName)

namespace CallbackMethod

/-- The elements for which a test holds. -/
def keep (test : Value → Nat → Comp Bool) : List (Value × Nat) → Comp (List Value)
  | [] => return []
  | (v, i) :: rest => do
    if ← test v i then return v :: (← keep test rest) else keep test rest

/-- The first element for which a test gives an answer, with its position. -/
def first? (test : Value → Nat → Comp Bool) (want : Bool) :
    List (Value × Nat) → Comp (Option (Value × Nat))
  | [] => return none
  | (v, i) :: rest => do
    if (← test v i) == want then return some (v, i) else first? test want rest

/-- Combines elements one after another with what came of the earlier ones. -/
def combine (step : Value → Value → Nat → Comp Value) (acc : Value) :
    List (Value × Nat) → Comp Value
  | [] => return acc
  | (v, i) :: rest => do combine step (← step acc v i) rest

/-- Puts an element behind the last one that does not exceed it. The list at hand is in reverse. -/
def insertBehind (exceeds : Value → Value → Comp Bool) (item : Value) :
    List Value → Comp (List Value)
  | [] => return [item]
  | before :: rest => do
    if ← exceeds before item then return before :: (← insertBehind exceeds item rest)
    else return item :: before :: rest

/-- Sorts elements that come one after another into a list in reverse. -/
def sortInto (exceeds : Value → Value → Comp Bool) (sorted : List Value) :
    List Value → Comp (List Value)
  | [] => return sorted.reverse
  | item :: rest => do sortInto exceeds (← insertBehind exceeds item sorted) rest

/-- Whether one element comes after another: by their texts, unless there is a function to compare
them. -/
def exceeds (call : Function → List Value → Comp Value) (comparator before item : Value) :
    Comp Bool :=
  match comparator with
  | .undefined => do
    let a ← before.toText
    let b ← item.toText
    return b < a
  | other => do
    let answer ← callValue call other [before, item]
    return 0 < (← answer.toNumber)

/-- Calls a method on an array. -/
def call (invoke : Function → List Value → Comp Value) (m : CallbackMethod) (a : ArrayRef)
    (args : List Value) : Comp Value := do
  let items ← (Value.array a).elements
  let numbered := items.zipIdx
  let callback := argument args 0
  let apply (v : Value) (i : Nat) : Comp Value :=
    callValue invoke callback [v, .number (Float.ofNat i), .array a]
  let test (v : Value) (i : Nat) : Comp Bool := do return (← apply v i).isTruthy
  match m with
  | .map => do Change.newArray (← numbered.mapM fun (v, i) => apply v i).toArray
  | .flatMap => do
    let parts ← numbered.mapM fun (v, i) => apply v i
    Change.newArray (← flatten 1 parts).toArray
  | .filter => do Change.newArray (← keep test numbered).toArray
  | .forEach => do
    let _ ← numbered.mapM fun (v, i) => apply v i
    return .undefined
  | .find => do return ((← first? test true numbered).map (·.1)).getD .undefined
  | .findIndex => do return ArrayMethod.position ((← first? test true numbered).map (·.2))
  | .any => do return .bool (← first? test true numbered).isSome
  | .every => do return .bool (← first? test false numbered).isNone
  | .reduce =>
    let step (acc v : Value) (i : Nat) : Comp Value :=
      callValue invoke callback [acc, v, .number (Float.ofNat i), .array a]
    match args[1]?, numbered with
    | some initial, numbered => combine step initial numbered
    | none, (v, _) :: rest => combine step v rest
    | none, [] => Act.typeFault .emptyReduce
  | .sort => do
    let sorted ← sortInto (exceeds invoke callback) [] items
    modify (m := Act) fun s => s.setArray a sorted.toArray
    return .array a

end CallbackMethod
end FieldScript
