/-!
# Values of running bodies

Arrays, objects and functions are shared: a value holds a reference to a cell of the store, and two
values are the same array if they hold the same reference. Promises are references into the table of
the scheduler.
-/

namespace FieldScript

/-- A reference to an array. -/
structure ArrayRef where
  index : Nat
deriving DecidableEq, Repr

/-- A reference to an object. -/
structure ObjectRef where
  index : Nat
deriving DecidableEq, Repr

/-- A reference to an arrow function with its scope. -/
structure ClosureRef where
  index : Nat
deriving DecidableEq, Repr

/-- A reference to a promise. -/
structure PromiseRef where
  index : Nat
deriving DecidableEq, Repr

/-! ## Functions that are at hand everywhere -/

/-- A global function. -/
inductive Builtin where
  | promiseAll
  | promiseResolve
  | promiseReject
  | objectKeys
  | objectValues
  | objectEntries
  | objectAssign
  | objectFromEntries
  | arrayIsArray
  | arrayFrom
  | mathAbs
  | mathCeil
  | mathFloor
  | mathRound
  | mathTrunc
  | mathSign
  | mathSqrt
  | mathPow
  | mathMax
  | mathMin
  | jsonStringify
  | jsonParse
  | encodeURIComponent
  | decodeURIComponent
  | parseInt
  | parseFloat
  | isNaN
  | number
  | string
  | boolean
  | consoleLog
  | assert
deriving DecidableEq, Repr

namespace Builtin

/-- The name a global function is written with. -/
def name : Builtin → String
  | .promiseAll => "Promise.all"
  | .promiseResolve => "Promise.resolve"
  | .promiseReject => "Promise.reject"
  | .objectKeys => "Object.keys"
  | .objectValues => "Object.values"
  | .objectEntries => "Object.entries"
  | .objectAssign => "Object.assign"
  | .objectFromEntries => "Object.fromEntries"
  | .arrayIsArray => "Array.isArray"
  | .arrayFrom => "Array.from"
  | .mathAbs => "Math.abs"
  | .mathCeil => "Math.ceil"
  | .mathFloor => "Math.floor"
  | .mathRound => "Math.round"
  | .mathTrunc => "Math.trunc"
  | .mathSign => "Math.sign"
  | .mathSqrt => "Math.sqrt"
  | .mathPow => "Math.pow"
  | .mathMax => "Math.max"
  | .mathMin => "Math.min"
  | .jsonStringify => "JSON.stringify"
  | .jsonParse => "JSON.parse"
  | .encodeURIComponent => "encodeURIComponent"
  | .decodeURIComponent => "decodeURIComponent"
  | .parseInt => "parseInt"
  | .parseFloat => "parseFloat"
  | .isNaN => "isNaN"
  | .number => "Number"
  | .string => "String"
  | .boolean => "Boolean"
  | .consoleLog => "console.log"
  | .assert => "assert"

def all : List Builtin :=
  [.promiseAll, .promiseResolve, .promiseReject, .objectKeys, .objectValues, .objectEntries,
    .objectAssign, .objectFromEntries, .arrayIsArray, .arrayFrom, .mathAbs, .mathCeil, .mathFloor,
    .mathRound, .mathTrunc, .mathSign, .mathSqrt, .mathPow, .mathMax, .mathMin, .jsonStringify,
    .jsonParse, .encodeURIComponent, .decodeURIComponent, .parseInt, .parseFloat, .isNaN, .number,
    .string, .boolean, .consoleLog, .assert]

/-- The global function of a name. -/
def ofName? (name : String) : Option Builtin := all.find? (·.name == name)

end Builtin

/-! ## Methods -/

/-- A method of texts. -/
inductive TextMethod where
  | split
  | toUpperCase
  | toLowerCase
  | trim
  | trimStart
  | trimEnd
  | includes
  | startsWith
  | endsWith
  | indexOf
  | lastIndexOf
  | slice
  | substring
  | replace
  | replaceAll
  | charAt
  | padStart
  | padEnd
  | repeat
  | concat
  | toString
deriving DecidableEq, Repr

namespace TextMethod

def name : TextMethod → String
  | .split => "split"
  | .toUpperCase => "toUpperCase"
  | .toLowerCase => "toLowerCase"
  | .trim => "trim"
  | .trimStart => "trimStart"
  | .trimEnd => "trimEnd"
  | .includes => "includes"
  | .startsWith => "startsWith"
  | .endsWith => "endsWith"
  | .indexOf => "indexOf"
  | .lastIndexOf => "lastIndexOf"
  | .slice => "slice"
  | .substring => "substring"
  | .replace => "replace"
  | .replaceAll => "replaceAll"
  | .charAt => "charAt"
  | .padStart => "padStart"
  | .padEnd => "padEnd"
  | .repeat => "repeat"
  | .concat => "concat"
  | .toString => "toString"

def all : List TextMethod :=
  [.split, .toUpperCase, .toLowerCase, .trim, .trimStart, .trimEnd, .includes, .startsWith,
    .endsWith, .indexOf, .lastIndexOf, .slice, .substring, .replace, .replaceAll, .charAt,
    .padStart, .padEnd, .repeat, .concat, .toString]

def ofName? (name : String) : Option TextMethod := all.find? (·.name == name)

end TextMethod

/-- A method of numbers. -/
inductive NumberMethod where
  | toFixed
  | toString
deriving DecidableEq, Repr

namespace NumberMethod

def name : NumberMethod → String
  | .toFixed => "toFixed"
  | .toString => "toString"

def all : List NumberMethod := [.toFixed, .toString]

def ofName? (name : String) : Option NumberMethod := all.find? (·.name == name)

end NumberMethod

/-- A method of arrays that calls nothing. -/
inductive ArrayMethod where
  | push
  | pop
  | shift
  | unshift
  | join
  | includes
  | indexOf
  | lastIndexOf
  | slice
  | concat
  | reverse
  | flat
  | toString
deriving DecidableEq, Repr

namespace ArrayMethod

def name : ArrayMethod → String
  | .push => "push"
  | .pop => "pop"
  | .shift => "shift"
  | .unshift => "unshift"
  | .join => "join"
  | .includes => "includes"
  | .indexOf => "indexOf"
  | .lastIndexOf => "lastIndexOf"
  | .slice => "slice"
  | .concat => "concat"
  | .reverse => "reverse"
  | .flat => "flat"
  | .toString => "toString"

def all : List ArrayMethod :=
  [.push, .pop, .shift, .unshift, .join, .includes, .indexOf, .lastIndexOf, .slice, .concat,
    .reverse, .flat, .toString]

def ofName? (name : String) : Option ArrayMethod := all.find? (·.name == name)

end ArrayMethod

/-- A method of arrays that calls a function on the elements. -/
inductive CallbackMethod where
  | map
  | filter
  | forEach
  | find
  | findIndex
  | any
  | every
  | reduce
  | flatMap
  | sort
deriving DecidableEq, Repr

namespace CallbackMethod

def name : CallbackMethod → String
  | .map => "map"
  | .filter => "filter"
  | .forEach => "forEach"
  | .find => "find"
  | .findIndex => "findIndex"
  | .any => "some"
  | .every => "every"
  | .reduce => "reduce"
  | .flatMap => "flatMap"
  | .sort => "sort"

def all : List CallbackMethod :=
  [.map, .filter, .forEach, .find, .findIndex, .any, .every, .reduce, .flatMap, .sort]

def ofName? (name : String) : Option CallbackMethod := all.find? (·.name == name)

end CallbackMethod

/-- A method of promises. -/
inductive PromiseMethod where
  | andThen
  | orElse
deriving DecidableEq, Repr

namespace PromiseMethod

def name : PromiseMethod → String
  | .andThen => "then"
  | .orElse => "catch"

def ofName? (name : String) : Option PromiseMethod :=
  [PromiseMethod.andThen, .orElse].find? (·.name == name)

end PromiseMethod

/-- A method that was read off a value and stays bound to it. -/
inductive BoundMethod where
  | text (receiver : String) (method : TextMethod)
  | number (receiver : Float) (method : NumberMethod)
  | array (receiver : ArrayRef) (method : ArrayMethod)
  | callback (receiver : ArrayRef) (method : CallbackMethod)
  | promise (receiver : PromiseRef) (method : PromiseMethod)
deriving Repr

def BoundMethod.name : BoundMethod → String
  | .text _ m => m.name
  | .number _ m => m.name
  | .array _ m => m.name
  | .callback _ m => m.name
  | .promise _ m => m.name

/-! ## Values -/

/-- What can be called. -/
inductive Function where
  | closure (ref : ClosureRef)
  | builtin (b : Builtin)
  | method (m : BoundMethod)
  /-- An external function of that name. -/
  | capability (name : String)
deriving Repr

namespace Function

/-- How messages name a function. -/
def describe : Function → String
  | .closure _ => "anonymous"
  | .builtin b => b.name
  | .method m => m.name
  | .capability name => "$api." ++ name

/-- Whether two functions are the same. A method is read afresh each time and is never the same as
another. -/
def same : Function → Function → Bool
  | .closure a, .closure b => a == b
  | .builtin a, .builtin b => a == b
  | .capability a, .capability b => a == b
  | _, _ => false

end Function

/-- A value. -/
inductive Value where
  | undefined
  | null
  | bool (b : Bool)
  | number (x : Float)
  | string (s : String)
  | array (ref : ArrayRef)
  | object (ref : ObjectRef)
  | function (f : Function)
  | promise (ref : PromiseRef)
deriving Repr, Inhabited

/-- What a promise settles to. -/
inductive Settled where
  | fulfilled (v : Value)
  | rejected (v : Value)
deriving Repr

namespace Value

/-- Whether a value is undefined or null. -/
def isNullish : Value → Bool
  | .undefined | .null => true
  | _ => false

/-- Whether a value counts as true where a truth value is asked for. -/
def isTruthy : Value → Bool
  | .undefined | .null => false
  | .bool b => b
  | .number x => x != 0 && !x.isNaN
  | .string s => s != ""
  | _ => true

/-- The name of a value's type. -/
def typeName : Value → String
  | .undefined => "undefined"
  | .null | .array _ | .object _ | .promise _ => "object"
  | .bool _ => "boolean"
  | .number _ => "number"
  | .string _ => "string"
  | .function _ => "function"

/-- The method of a name that a value has. -/
def method? (v : Value) (name : String) : Option BoundMethod :=
  match v with
  | .string s => (TextMethod.ofName? name).map (.text s)
  | .number x => (NumberMethod.ofName? name).map (.number x)
  | .array a =>
    match ArrayMethod.ofName? name with
    | some m => some (.array a m)
    | none => (CallbackMethod.ofName? name).map (.callback a)
  | .promise p => (PromiseMethod.ofName? name).map (.promise p)
  | _ => none

/-- Equality without conversion. Arrays, objects and functions are equal if they are the same one,
and a promise equals nothing. -/
def strictEquals : Value → Value → Bool
  | .undefined, .undefined => true
  | .null, .null => true
  | .bool a, .bool b => a == b
  | .number a, .number b => a == b
  | .string a, .string b => a == b
  | .array a, .array b => a == b
  | .object a, .object b => a == b
  | .function a, .function b => a.same b
  | _, _ => false

/-- Equality without conversion for which what is no number equals itself. -/
def sameValueZero : Value → Value → Bool
  | .number a, .number b => (a.isNaN && b.isNaN) || a == b
  | a, b => a.strictEquals b

end Value
end FieldScript
