import FieldScript.Eval.Number
import FieldScript.Eval.Store
import FieldScript.Json.Printer
import FieldScript.Text.Quoted

/-!
# Conversions of values

Texts, numbers and documents of values. A value can contain itself, and then it has no text and no
document. A value is followed one level further than there are cells: a longer way leads through some
cell twice.
-/

namespace FieldScript

namespace Store

/-! ## Texts -/

/-- The text of a value, unless it contains itself. An array that is being written, `held`, cannot
be read. -/
def textOf (s : Store) (held : Option ArrayRef) (depth : Nat) (v : Value) : Except Abort String :=
  match v with
  | .undefined => .ok "undefined"
  | .null => .ok "null"
  | .bool b => .ok (if b then "true" else "false")
  | .number x => .ok (Number.text x)
  | .string t => .ok t
  | .object _ => .ok "[object Object]"
  | .function _ => .ok "function () \x7b [native code] \x7d"
  | .promise _ => .ok "[object Promise]"
  | .array a =>
    if held == some a then .error .aliased
    else
      match depth with
      | 0 => .error .cyclic
      | depth + 1 => do
        let parts ← (s.array a).toList.mapM fun item =>
          if item.isNullish then .ok "" else s.textOf held depth item
        return ",".intercalate parts

/-- The text of a value. -/
def text (s : Store) (v : Value) : Except Abort String := s.textOf none (s.arrays.size + 1) v

/-- The number of a value. -/
def numberOf (s : Store) (held : Option ArrayRef) (v : Value) : Except Abort Float :=
  match v with
  | .undefined => .ok Number.nan
  | .null => .ok 0.0
  | .bool b => .ok (if b then 1.0 else 0.0)
  | .number x => .ok x
  | .string t => .ok (Number.ofText t)
  | .array _ => do return Number.ofText (← s.textOf held (s.arrays.size + 1) v)
  | .object _ | .function _ | .promise _ => .ok Number.nan

/-! ## Documents -/

/-- The document of a value; there is none of undefined and of functions. -/
def documentOf? (s : Store) (depth : Nat) (v : Value) : Except Abort (Option Json) :=
  match v with
  | .undefined | .function _ => .ok none
  | .null => .ok (some .null)
  | .bool b => .ok (some (.bool b))
  | .number x => .ok (some (.ofFloat x))
  | .string t => .ok (some (.string t))
  | .promise _ => .ok (some (.object []))
  | .array a =>
    match depth with
    | 0 => .error .cyclic
    | depth + 1 => do
      let items ← (s.array a).toList.mapM fun item => do
        return (← s.documentOf? depth item).getD .null
      return some (.array items)
  | .object o =>
    match depth with
    | 0 => .error .cyclic
    | depth + 1 => do
      let members ← (s.object o).mapM fun (key, item) => do
        return (← s.documentOf? depth item).map fun j => (key, j)
      return some (.object (members.filterMap id))

/-- The document of a value, unless it is undefined or a function. -/
def document? (s : Store) (v : Value) : Except Abort (Option Json) :=
  s.documentOf? (s.arrays.size + s.objects.size + 1) v

/-- The document of a value: null where there is none. -/
def document (s : Store) (v : Value) : Except Abort Json := do
  return (← s.document? v).getD .null

/-! ## Descriptions -/

/-- The description of a value that tells texts from other values. -/
def describeOf (s : Store) (depth : Nat) (v : Value) : Except Abort String :=
  match v with
  | .undefined => .ok "undefined"
  | .null => .ok "null"
  | .bool b => .ok (if b then "true" else "false")
  | .number x => .ok (Number.text x)
  | .string t => .ok (Text.quote t)
  | .function f => .ok ("[Function: " ++ f.describe ++ "]")
  | .promise _ => .ok "Promise"
  | .array a =>
    match depth with
    | 0 => .error .cyclic
    | depth + 1 => do
      let items ← (s.array a).toList.mapM fun item => s.describeOf depth item
      return "[" ++ ", ".intercalate items ++ "]"
  | .object o =>
    match depth with
    | 0 => .error .cyclic
    | depth + 1 => do
      let members ← (s.object o).mapM fun (key, item) => do
        return Text.quote key ++ ": " ++ (← s.describeOf depth item)
      return "\x7b" ++ ", ".intercalate members ++ "\x7d"

/-- The description of a value. -/
def describe (s : Store) (v : Value) : Except Abort String :=
  s.describeOf (s.arrays.size + s.objects.size + 1) v

end Store

/-! ## The same on the store at hand -/

namespace Value

def toText (v : Value) : Act String := Act.read fun s => s.text v

def toNumber (v : Value) : Act Float := Act.read fun s => s.numberOf none v

/-- The 32-bit integer of a value. -/
def toInt32 (v : Value) : Act Int32 := do return Number.toInt32 (← v.toNumber)

def toDocument? (v : Value) : Act (Option Json) := Act.read fun s => s.document? v

def toDocument (v : Value) : Act Json := Act.read fun s => s.document v

/-- The text of a value's document, if it has one. -/
def stringify? (v : Value) : Act (Option String) := do return (← v.toDocument?).map Json.render

/-- The name of a property that a value stands for. -/
def toKey (v : Value) : Act String := v.toText

mutual

/-- A new value with the content of a document. -/
def ofJson : Json → Change Value
  | .null => return .null
  | .bool b => return .bool b
  | .int n => return .number (Float.ofInt n)
  | .float x => return .number x
  | .string t => return .string t
  | .array items => do Change.newArray (← ofJsonItems items).toArray
  | .object members => do Change.newObject (← ofJsonMembers members)

/-- New values with the contents of documents. -/
def ofJsonItems : List Json → Change (List Value)
  | [] => return []
  | j :: rest => do return (← ofJson j) :: (← ofJsonItems rest)

/-- New entries with the contents of members. -/
def ofJsonMembers : List (String × Json) → Change (List (String × Value))
  | [] => return []
  | (name, j) :: rest => do return (name, ← ofJson j) :: (← ofJsonMembers rest)

end

end Value

namespace Store

/-- The text that reports what was raised. -/
def report (s : Store) (r : Raised) : Except Abort String :=
  match r with
  | .thrown v => do return "uncaught " ++ (← s.describe v)
  | .type fault => .ok ("TypeError: " ++ fault.message)
  | .unbound name => .ok ("ReferenceError: " ++ name ++ " is not defined")
  | .range fault => .ok ("RangeError: " ++ fault.message)

/-- The message of the fault that a body ends with: the text of the value that a handler would see,
empty if that has none. -/
def faultMessage (s : Store) (r : Raised) : Except Abort String := do
  let (v, s) := (Change.raisedValue r).run s
  match ← s.document? v with
  | some j => return j.render
  | none => return ""

end Store
end FieldScript
