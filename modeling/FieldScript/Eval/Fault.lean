import FieldScript.Eval.Value

/-!
# Faults of running bodies

What a body can raise, as causes. A raised fault can be observed by the body, through a rejected
promise, and ends up in the answer. An abort cannot: the run has no answer then.
-/

namespace FieldScript

/-- An operation on a value that does not support it. -/
inductive TypeFault where
  | notFunction (name : String)
  | notIterable (typeName : String)
  | readOfNothing (value key : String)
  | writeOfNothing (value key : String)
  | destructureOfNothing (value : String)
  | constantAssigned
  | capabilityAssigned (name : String)
  | searchOperand (key value : String)
  | instanceOf
  | functionExpression
  | functionDeclaration
  | thisExpression
  | assignmentTarget
  | destructuringTarget
  | emptyReduce
  | assignReceiver
  | notArray (method : String)
deriving DecidableEq, Repr

/-- The wording of a fault. -/
def TypeFault.message : TypeFault → String
  | .notFunction name => name ++ " is not a function"
  | .notIterable typeName => typeName ++ " is not iterable"
  | .readOfNothing value key =>
    "Cannot read properties of " ++ value ++ " (reading '" ++ key ++ "')"
  | .writeOfNothing value key =>
    "Cannot set properties of " ++ value ++ " (setting '" ++ key ++ "')"
  | .destructureOfNothing value =>
    "Cannot destructure '" ++ value ++ "' as it is " ++ value ++ "."
  | .constantAssigned => "Assignment to constant variable."
  | .capabilityAssigned name => "Cannot assign to capability '" ++ name ++ "'"
  | .searchOperand key value =>
    "Cannot use 'in' operator to search for '" ++ key ++ "' in " ++ value
  | .instanceOf => "'instanceof' is not supported"
  | .functionExpression => "function expressions are not supported"
  | .functionDeclaration => "function declarations are not supported"
  | .thisExpression => "'this' is not supported"
  | .assignmentTarget => "Invalid left-hand side in assignment"
  | .destructuringTarget => "Invalid destructuring target"
  | .emptyReduce => "Reduce of empty array with no initial value"
  | .assignReceiver => "Object.assign target must be an object"
  | .notArray method => method ++ " called on a non-array"

/-- A number outside its limits. -/
inductive RangeFault where
  | arrayLength
  | stringLength
  | repeatCount (text : String)
  | fixedDigits
deriving DecidableEq, Repr

/-- The wording of a fault. -/
def RangeFault.message : RangeFault → String
  | .arrayLength => "Invalid array length"
  | .stringLength => "Invalid string length"
  | .repeatCount text => "Invalid count value: " ++ text
  | .fixedDigits => "toFixed() digits argument must be between 0 and 100"

/-- What a body raises. -/
inductive Raised where
  | type (fault : TypeFault)
  /-- A name that nothing binds. -/
  | unbound (name : String)
  | range (fault : RangeFault)
  /-- A value that was thrown as it is. -/
  | thrown (v : Value)
deriving Repr

namespace Raised

/-- The name and the message of an error, unless a value was thrown as it is. -/
def describe? : Raised → Option (String × String)
  | .type fault => some ("TypeError", fault.message)
  | .unbound name => some ("ReferenceError", name ++ " is not defined")
  | .range fault => some ("RangeError", fault.message)
  | .thrown _ => none

end Raised

/-- Why a run has no answer. -/
inductive Abort where
  /-- A value that contains itself was to be written out. -/
  | cyclic
  /-- An array was to be read while it was being written. -/
  | aliased
  /-- The run took more steps than it was given. -/
  | exhausted
deriving DecidableEq, Repr

/-- What ends a computation early. -/
inductive Halt where
  | raised (r : Raised)
  | aborted (a : Abort)
deriving Repr

end FieldScript
