import FieldScript.Eval.Property
import FieldScript.Text.Case
import FieldScript.Text.Search

/-!
# Methods of texts and numbers

Positions in a text count characters.
-/

namespace FieldScript

/-- A position in a text that does not count from the end. -/
def plainPosition (v : Value) (size default : Nat) : Act Nat :=
  match v with
  | .undefined => return default
  | v => do return min (Number.toCount (← v.toNumber)) size

/-- The first characters of a text that is repeated without end. -/
def cycled (fill : List Char) (n : Nat) : List Char :=
  ((List.replicate (n / fill.length + 1) fill).flatten).take n

namespace TextMethod

/-- The characters that pad a text to a width; none if it is wide enough. -/
def padding (chars : List Char) (args : List Value) : Act (List Char) := do
  let width := Number.toCount (← (argument args 0).toNumber)
  let fill ← match argument args 1 with
    | .undefined => pure [' ']
    | v => do pure (← v.toText).toList
  if width ≤ chars.length || fill.isEmpty then return []
  checkTextLength width
  return cycled fill (width - chars.length)

/-- A position as a number, and minus one if there is none. -/
def position (found : Option Nat) : Value :=
  .number (match found with
    | some i => Float.ofNat i
    | none => -1.0)

/-- Calls a method on a text. -/
def call (m : TextMethod) (s : String) (args : List Value) : Act Value := do
  let chars := s.toList
  let text (i : Nat) : Act (List Char) := do return (← (argument args i).toText).toList
  let made (cs : List Char) : Act Value := return .string (String.ofList cs)
  match m with
  | .split =>
    match argument args 0 with
    | .undefined => Change.newArray #[.string s]
    | v => do
      let separator := (← v.toText).toList
      Change.newArray ((Text.split separator chars).map (.string <| String.ofList ·)).toArray
  | .toUpperCase => made (Text.toUpper chars)
  | .toLowerCase => made (Text.toLower chars)
  | .trim => made (Text.trim chars)
  | .trimStart => made (Text.trimStart chars)
  | .trimEnd => made (Text.trimEnd chars)
  | .includes => do return .bool (Text.indexOf? (← text 0) chars).isSome
  | .startsWith => do return .bool ((← text 0).isPrefixOf chars)
  | .endsWith => do return .bool ((← text 0).isSuffixOf chars)
  | .indexOf => do return position (Text.indexOf? (← text 0) chars)
  | .lastIndexOf => do return position (Text.lastIndexOf? (← text 0) chars)
  | .slice => do
    let start ← relativePosition (argument args 0) chars.length 0
    let stop ← relativePosition (argument args 1) chars.length chars.length
    made ((chars.take stop).drop start)
  | .substring => do
    let a ← plainPosition (argument args 0) chars.length 0
    let b ← plainPosition (argument args 1) chars.length chars.length
    made ((chars.take (max a b)).drop (min a b))
  | .replace => do
    let old ← text 0
    made (Text.replaceFirst old (← text 1) chars)
  | .replaceAll => do
    let old ← text 0
    made (Text.replaceAll old (← text 1) chars)
  | .charAt => do
    let i := Number.toCount (← (argument args 0).toNumber)
    made (chars[i]?.toList)
  | .padStart => do made ((← padding chars args) ++ chars)
  | .padEnd => do made (chars ++ (← padding chars args))
  | .repeat => do
    let x ← (argument args 0).toNumber
    if x < 0 || x.isInf then Act.rangeFault (.repeatCount (Number.text x))
    else
      let count := Number.toCount x
      checkTextLength (chars.length * count)
      if chars.isEmpty then made [] else made (List.replicate count chars).flatten
  | .concat => do
    let parts ← args.mapM Value.toText
    return .string (parts.foldl (· ++ ·) s)
  | .toString => return .string s

end TextMethod

namespace NumberMethod

/-- Calls a method on a number. -/
def call (m : NumberMethod) (x : Float) (args : List Value) : Act Value :=
  match m with
  | .toFixed => do
    let digits := Number.toCount (← (argument args 0).toNumber)
    if 100 < digits then Act.rangeFault .fixedDigits
    else return .string (Number.fixedText x digits)
  | .toString => return .string (Number.text x)

end NumberMethod
end FieldScript
