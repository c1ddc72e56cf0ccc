import FieldScript.Eval.Operator

/-!
# Properties and elements

Reading and writing properties, the elements of what can be walked through, and the limits on how
long arrays and texts get.
-/

namespace FieldScript

/-- The longest array. -/
def maxArrayLength : Nat := Nat.pow 2 24

/-- The longest text that a method may make, in characters. -/
def maxTextLength : Nat := Nat.pow 2 29 - 24

/-- The length that a number asks for. -/
def arrayLength (x : Float) : Act Nat :=
  if 0 ≤ x && Number.isWhole x && x ≤ Float.ofNat maxArrayLength then return Number.toCount x
  else Act.rangeFault .arrayLength

/-- Refuses a text that would be too long. -/
def checkTextLength (n : Nat) : Act Unit :=
  if maxTextLength < n then Act.rangeFault .stringLength else return

/-- An array cut or filled up with undefined to a length. -/
def resized (items : Array Value) (n : Nat) : Array Value :=
  if n ≤ items.size then items.take n else items ++ Array.replicate (n - items.size) .undefined

/-- A text of one character. -/
def charText (c : Char) : Value := .string (String.singleton c)

namespace Value

/-- The elements of an array or the characters of a text. -/
def elements (v : Value) : Act (List Value) :=
  match v with
  | .array a => do return ((← get).array a).toList
  | .string s => return s.toList.map charText
  | other => Act.typeFault (.notIterable other.typeName)

/-- Entries whose names are positions. -/
def numbered (items : List Value) : List (String × Value) :=
  items.zipIdx.map fun (v, i) => (Nat.repr i, v)

/-- The entries of an object, an array or a text. -/
def ownEntries (v : Value) : Act (List (String × Value)) :=
  match v with
  | .object o => do return (← get).object o
  | .array a => do return numbered ((← get).array a).toList
  | .string s => return numbered (s.toList.map charText)
  | _ => return []

/-- Reads a property. A method comes before an entry of the same name. -/
def get (v : Value) (key : String) : Act Value := do
  if v.isNullish then Act.typeFault (.readOfNothing (← v.toText) key)
  else
    match v.method? key with
    | some m => return .function (.method m)
    | none =>
      match v with
      | .object o => return (((← MonadState.get).object o).lookup key).getD .undefined
      | .array a =>
        let items := (← MonadState.get).array a
        if key = "length" then return .number (Float.ofNat items.size)
        else return ((arrayIndex? key).bind fun i => items[i]?).getD .undefined
      | .string s =>
        if key = "length" then return .number (Float.ofNat s.length)
        else return (((arrayIndex? key).bind fun i => s.toList[i]?).map charText).getD .undefined
      | _ => return .undefined

/-- Writes a property. An array takes a length and elements, and grows as needed; what is neither
object nor array takes nothing. The length of an array cannot come from a value whose text needs the
array itself. -/
def set (v : Value) (key : String) (value : Value) : Act Unit := do
  match v with
  | .undefined | .null => Act.typeFault (.writeOfNothing (← v.toText) key)
  | .object o => modify fun s => s.modifyObject o (Entries.set key value)
  | .array a =>
    if key = "length" then
      let n ← arrayLength (← Act.read fun s => s.numberOf (some a) value)
      modify fun s => s.modifyArray a (resized · n)
    else
      match arrayIndex? key with
      | none => return
      | some i =>
        if ((← MonadState.get).array a).size ≤ i then
          if maxArrayLength < i + 1 then Act.rangeFault .arrayLength
          else modify fun s => s.modifyArray a fun items => (resized items i).push value
        else modify fun s => s.modifyArray a fun items => items.setIfInBounds i value
  | _ => return

/-- Removes an entry of an object. -/
def erase (v : Value) (key : String) : Act Unit :=
  match v with
  | .object o => modify fun s => s.modifyObject o (Entries.erase key)
  | _ => return

end Value

/-- The argument at a position, undefined where there is none. -/
def argument (args : List Value) (i : Nat) : Value := args[i]?.getD .undefined

/-- The position that a value denotes in a sequence. Negative positions count from the end. -/
def relativePosition (v : Value) (size default : Nat) : Act Nat :=
  match v with
  | .undefined => return default
  | v => do
    let x ← v.toNumber
    let x := if x.isNaN then 0.0 else Number.trunc x
    if x < 0 then return Number.toCount (Float.ofNat size + x)
    else return min (Number.toCount x) size

end FieldScript
