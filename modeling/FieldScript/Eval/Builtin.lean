import FieldScript.Eval.ArrayMethod
import FieldScript.Eval.Comp
import FieldScript.Eval.TextMethod
import FieldScript.Json.Reader
import FieldScript.Text.Percent

/-!
# Global functions

The names that stand for functions and constants in every body, and what the functions do.
-/

namespace FieldScript

/-! ## Names -/

/-- The members of an object that groups functions. -/
def members (entries : List (String × Builtin)) : List (String × Value) :=
  entries.map fun (name, b) => (name, .function (.builtin b))

/-- What a global name stands for: a value, or the entries of an object. -/
inductive Global where
  | value (v : Value)
  | group (entries : List (String × Value))

/-- The meaning of a global name. -/
def Global.ofName? (name : String) : Option Global :=
  let function (b : Builtin) : Option Global := some (.value (.function (.builtin b)))
  match name with
  | "undefined" => some (.value .undefined)
  | "NaN" => some (.value (.number Number.nan))
  | "Infinity" => some (.value (.number Number.infinity))
  | "Promise" => some <| .group <| members
    [("all", .promiseAll), ("resolve", .promiseResolve), ("reject", .promiseReject)]
  | "Object" => some <| .group <| members
    [("keys", .objectKeys), ("values", .objectValues), ("entries", .objectEntries),
      ("assign", .objectAssign), ("fromEntries", .objectFromEntries)]
  | "Array" => some <| .group <| members [("isArray", .arrayIsArray), ("from", .arrayFrom)]
  | "Math" => some <| .group <|
    members
      [("abs", .mathAbs), ("ceil", .mathCeil), ("floor", .mathFloor), ("round", .mathRound),
        ("trunc", .mathTrunc), ("sign", .mathSign), ("sqrt", .mathSqrt), ("pow", .mathPow),
        ("max", .mathMax), ("min", .mathMin)] ++
      [("PI", .number 3.141592653589793), ("E", .number 2.718281828459045)]
  | "JSON" => some <| .group <| members [("stringify", .jsonStringify), ("parse", .jsonParse)]
  | "console" => some <| .group <| members
    [("log", .consoleLog), ("info", .consoleLog), ("warn", .consoleLog), ("error", .consoleLog)]
  | "encodeURIComponent" => function .encodeURIComponent
  | "decodeURIComponent" => function .decodeURIComponent
  | "parseInt" => function .parseInt
  | "parseFloat" => function .parseFloat
  | "isNaN" => function .isNaN
  | "Number" => function .number
  | "String" => function .string
  | "Boolean" => function .boolean
  | "assert" => function .assert
  | _ => none

/-- The value of a global name. A group is a new object each time. -/
def Global.read? (name : String) : Act (Option Value) :=
  match Global.ofName? name with
  | some (.value v) => return some v
  | some (.group entries) => do return some (← Change.newObject entries)
  | none => return none

/-! ## Calls -/

namespace Builtin

/-- Throws a new error of a name that is none of the language's own. -/
def throwNamed {α : Type} (name message : String) : Act α := do
  Act.raise (.thrown (← Change.newError name message))

/-- The text of a value, or of its document if it has one and is no text. -/
def consoleText (v : Value) : Act String :=
  match v with
  | .string s => return s
  | other => do
    match ← other.stringify? with
    | some text => return text
    | none => other.toText

/-- The pairs of an object's entries as arrays. -/
def pairs (entries : List (String × Value)) : Act (List Value) :=
  entries.mapM fun (key, v) => Change.newArray #[.string key, v]

/-- The entry that a pair stands for. -/
def entryOfPair (pair : Value) : Act (String × Value) := do
  let parts ← pair.elements
  return (← (argument parts 0).toText, argument parts 1)

/-- Calls a function that makes no promise. -/
def callPlain (b : Builtin) (args : List Value) : Act Value := do
  let first := argument args 0
  let onNumber (f : Float → Float) : Act Value := do return .number (f (← first.toNumber))
  match b with
  | .promiseAll | .promiseResolve | .promiseReject => return .undefined
  | .objectKeys => do
    let entries ← first.ownEntries
    Change.newArray (entries.map fun (key, _) => .string key).toArray
  | .objectValues => do
    let entries ← first.ownEntries
    Change.newArray (entries.map (·.2)).toArray
  | .objectEntries => do Change.newArray (← pairs (← first.ownEntries)).toArray
  | .objectAssign =>
    match first with
    | .object o =>
      for source in args.drop 1 do
        let entries ← source.ownEntries
        modify fun s => s.modifyObject o (Entries.setAll · entries)
      return first
    | _ => Act.typeFault .assignReceiver
  | .objectFromEntries => do
    let entries ← (← first.elements).mapM entryOfPair
    Change.newObject (Entries.setAll [] entries)
  | .arrayIsArray =>
    return .bool (match first with
      | .array _ => true
      | _ => false)
  | .arrayFrom =>
    match first with
    | .array _ | .string _ => do Change.newArray (← first.elements).toArray
    | .object o => do
      let x ← match ((← get).object o).lookup "length" with
        | some v => v.toNumber
        | none => pure 0.0
      let n ← arrayLength (if x.isNaN || x < 0 then 0.0 else Number.trunc x)
      Change.newArray (Array.replicate n .undefined)
    | _ => Change.newArray #[]
  | .mathAbs => onNumber Float.abs
  | .mathCeil => onNumber Float.ceil
  | .mathFloor => onNumber Float.floor
  | .mathRound => onNumber Number.round
  | .mathTrunc => onNumber Number.trunc
  | .mathSign => onNumber Number.sign
  | .mathSqrt => onNumber Float.sqrt
  | .mathPow => do return .number ((← first.toNumber).pow (← (argument args 1).toNumber))
  | .mathMax => do
    return .number ((← args.mapM Value.toNumber).foldl Number.larger (-Number.infinity))
  | .mathMin => do
    return .number ((← args.mapM Value.toNumber).foldl Number.smaller Number.infinity)
  | .jsonStringify => do
    let indented := !(argument args 2).isNullish
    match ← first.toDocument? with
    | none => return .undefined
    | some j => return .string (if indented then j.renderIndented 0 else j.render)
  | .jsonParse => do
    let text := (← first.toText).toList
    match Json.read text with
    | .ok j => Value.ofJson j
    | .error failure => throwNamed "SyntaxError" ("JSON.parse: " ++ failure.message text)
  | .encodeURIComponent => do return .string (Text.percentEncode (← first.toText))
  | .decodeURIComponent => do
    match Text.percentDecode? (← first.toText) with
    | some text => return .string text
    | none => throwNamed "URIError" "URI malformed"
  | .parseInt => do
    let radix ← match argument args 1 with
      | .undefined => pure 0
      | v => do pure (min (Number.toCount (← v.toNumber)) (Nat.pow 2 32 - 1))
    return .number (Number.readWhole (← first.toText) radix)
  | .parseFloat => do return .number (Number.readDecimal (← first.toText))
  | .isNaN => do return .bool (← first.toNumber).isNaN
  | .number => if args.isEmpty then return .number 0.0 else onNumber id
  | .string => if args.isEmpty then return .string "" else do return .string (← first.toText)
  | .boolean => return .bool first.isTruthy
  | .consoleLog => do
    let _ ← args.mapM consoleText
    return .undefined
  | .assert =>
    if first.isTruthy then return .undefined
    else
      match argument args 1 with
      | .undefined => throwNamed "AssertionError" "Assertion failed"
      | v => do throwNamed "AssertionError" (← v.toText)

/-- Calls a global function. -/
def call (b : Builtin) (args : List Value) : Comp Value :=
  match b with
  | .promiseAll => do return .promise (← Comp.spawn (.all (← (argument args 0).elements)))
  | .promiseResolve =>
    match argument args 0 with
    | .promise p => return .promise p
    | v => do return .promise (← Comp.spawn (.settled (.fulfilled v)))
  | .promiseReject => do return .promise (← Comp.spawn (.settled (.rejected (argument args 0))))
  | b => b.callPlain args

end Builtin

/-! ## Methods by name -/

/-- Calls a method that takes no function by its name, whether or not the receiver has it. What is
neither text nor number is taken for an array. -/
def callNamedMethod (receiver : Value) (name : String) (args : List Value) : Act Value :=
  match receiver with
  | .string s =>
    match TextMethod.ofName? name with
    | some m => m.call s args
    | none => Act.typeFault (.notFunction ("string." ++ name))
  | .number x =>
    match NumberMethod.ofName? name with
    | some m => m.call x args
    | none => Act.typeFault (.notFunction ("number." ++ name))
  | .array a =>
    match ArrayMethod.ofName? name with
    | some m => m.call a args
    | none => Act.typeFault (.notFunction ("array." ++ name))
  | _ => Act.typeFault (.notArray name)

end FieldScript
