import FieldScript.Entries
import FieldScript.Json.Basic
import FieldScript.Text.Offset
import FieldScript.Text.Class

/-!
# Reading documents

A strict reader. A failure names its cause and the number of bytes read when it was noticed, from
which `Failure.message` derives line and column. Containers may be nested 127 deep.

A number is read as a significand of 64 bits, later digits being ignored, that is multiplied or
divided once by a power of ten.
-/

namespace FieldScript.Json

open FieldScript.Text (isDigit isDigitOf digitValue digitsValue byteLength)

/-- Why a text is no document. -/
inductive Cause where
  | endInValue
  | endInList
  | endInObject
  | endInString
  | expectedColon
  | expectedListEnd
  | expectedObjectEnd
  | expectedIdent
  | expectedValue
  | keyNotString
  | trailingComma
  | trailingCharacters
  | invalidNumber
  | numberOutOfRange
  | invalidEscape
  | controlCharacter
  | loneSurrogate
  | unpairedSurrogate
  | tooDeep
deriving DecidableEq, Repr

/-- The wording of a cause. -/
def Cause.message : Cause → String
  | .endInValue => "EOF while parsing a value"
  | .endInList => "EOF while parsing a list"
  | .endInObject => "EOF while parsing an object"
  | .endInString => "EOF while parsing a string"
  | .expectedColon => "expected `:`"
  | .expectedListEnd => "expected `,` or `]`"
  | .expectedObjectEnd => "expected `,` or `\x7d`"
  | .expectedIdent => "expected ident"
  | .expectedValue => "expected value"
  | .keyNotString => "key must be a string"
  | .trailingComma => "trailing comma"
  | .trailingCharacters => "trailing characters"
  | .invalidNumber => "invalid number"
  | .numberOutOfRange => "number out of range"
  | .invalidEscape => "invalid escape"
  | .controlCharacter => "control character (\\u0000-\\u001F) found while parsing a string"
  | .loneSurrogate => "lone leading surrogate in hex escape"
  | .unpairedSurrogate => "unexpected end of hex escape"
  | .tooDeep => "recursion limit exceeded"

/-- A cause together with the number of bytes read. -/
structure Failure where
  cause : Cause
  bytes : Nat
deriving DecidableEq, Repr

/-- Line and byte column reached after `bytes` bytes of a text. -/
def lineColumn (bytes : Nat) : List Char → Nat × Nat → Nat × Nat
  | [], (line, column) => (line, column + bytes)
  | c :: rest, (line, column) =>
    if bytes < c.utf8Size then (line, column + bytes)
    else lineColumn (bytes - c.utf8Size) rest
      (if c = '\n' then (line + 1, 0) else (line, column + c.utf8Size))

/-- The wording of a failure in a text. -/
def Failure.message (f : Failure) (text : List Char) : String :=
  let (line, column) := lineColumn f.bytes text (1, 0)
  s!"{f.cause.message} at line {line} column {column}"

/-- What is left to read and how many bytes have been read. -/
structure Cursor where
  rest : List Char
  bytes : Nat

/-- A step of the reader. -/
abbrev Step (α : Type) := StateT Cursor (Except Failure) α

namespace Step

def peek : Step (Option Char) := return (← get).rest.head?

/-- Moves past the next character. -/
def skip : Step Unit := modify fun c =>
  match c.rest with
  | [] => c
  | x :: rest => ⟨rest, c.bytes + x.utf8Size⟩

def next : Step (Option Char) := do
  let c ← peek
  skip
  return c

/-- Fails at the place reached. -/
def failHere {α : Type} (cause : Cause) : Step α := do
  throw ⟨cause, (← get).bytes⟩

/-- Fails at the byte that comes next, or at the place reached if nothing comes. -/
def failNext {α : Type} (cause : Cause) : Step α := do
  let c ← get
  throw ⟨cause, c.bytes + (if c.rest.isEmpty then 0 else 1)⟩

def isSpace (c : Char) : Bool := c = ' ' || c = '\n' || c = '\t' || c = '\r'

/-- Skips space and looks at what follows. -/
def peekAfterSpace : Step (Option Char) := do
  modify fun c =>
    ⟨c.rest.dropWhile isSpace, c.bytes + byteLength (c.rest.takeWhile isSpace)⟩
  peek

/-- Takes the digits that come next. -/
def takeDigits : Step (List Char) := do
  let c ← get
  let digits := c.rest.takeWhile isDigit
  set (Cursor.mk (c.rest.dropWhile isDigit) (c.bytes + digits.length))
  return digits

/-- Takes a word that must come next, character by character. -/
def word : List Char → Step Unit
  | [] => return ()
  | expected :: more => do
    match ← peek with
    | none => failHere .endInValue
    | some c =>
      if c = expected then
        skip
        word more
      else failNext .expectedIdent

/-- Four hexadecimal digits of an escape. -/
def fourHex : Step Nat := do
  let c ← get
  if byteLength c.rest < 4 then
    set (Cursor.mk [] (c.bytes + byteLength c.rest))
    failHere .endInString
  else
    let digits := c.rest.take 4
    if digits.all (isDigitOf 16) then
      set (Cursor.mk (c.rest.drop 4) (c.bytes + 4))
      return digitsValue 16 digits
    else throw ⟨.invalidEscape, c.bytes + 4⟩

/-- One character that must come next inside a surrogate pair. -/
def pairMark (expected : Char) : Step Unit := do
  match ← peek with
  | none => failHere .endInString
  | some c =>
    if c = expected then skip
    else
      let cursor ← get
      throw ⟨.unpairedSurrogate, cursor.bytes + 1⟩

/-- The character of a hexadecimal escape; characters beyond the first plane take two. -/
def unicodeEscape : Step Char := do
  let high ← fourHex
  if 0xDC00 ≤ high && high ≤ 0xDFFF then failHere .loneSurrogate
  else if 0xD800 ≤ high && high ≤ 0xDBFF then
    pairMark '\\'
    pairMark 'u'
    let low ← fourHex
    if low < 0xDC00 || 0xDFFF < low then failHere .loneSurrogate
    else return Char.ofNat ((high - 0xD800) * 0x400 + (low - 0xDC00) + 0x10000)
  else return Char.ofNat high

/-- The character of an escape, after its backslash. -/
def escape : Step Char := do
  let short (c : Char) : Step Char := do
    skip
    return c
  match ← peek with
  | none => failHere .endInString
  | some '"' => short '"'
  | some '\\' => short '\\'
  | some '/' => short '/'
  | some 'b' => short '\x08'
  | some 'f' => short '\x0c'
  | some 'n' => short '\n'
  | some 'r' => short '\r'
  | some 't' => short '\t'
  | some 'u' =>
    skip
    unicodeEscape
  | some _ => failNext .invalidEscape

/-- The text up to the closing quote. The fuel bounds the number of characters. -/
def stringBody : Nat → List Char → Step String
  | 0, _ => failHere .endInString
  | fuel + 1, acc => do
    match ← next with
    | none => failHere .endInString
    | some '"' => return String.ofList acc.reverse
    | some '\\' => do
      let c ← escape
      stringBody fuel (c :: acc)
    | some c =>
      if c.toNat < 0x20 then failHere .controlCharacter else stringBody fuel (c :: acc)

/-- A text after its opening quote. -/
def string : Step String := do
  stringBody ((← get).rest.length + 1) []

/-- The limit below which a significand is read exactly. -/
def significandLimit : Nat := Nat.pow 2 64

/-- The limit below which an exponent is read exactly. -/
def exponentLimit : Nat := Nat.pow 2 31

/-- Adds digits to a number as long as it stays below a limit, and counts the digits used. -/
def accumulate (limit start : Nat) : List Char → Nat × Nat
  | [] => (start, 0)
  | d :: rest =>
    let larger := start * 10 + digitValue d
    if larger < limit then
      let (total, used) := accumulate limit larger rest
      (total, used + 1)
    else (start, 0)

/-- Divides by powers of ten until the exponent is one that a number can hold. -/
def scaleDown : Nat → Float → Int → Float × Int
  | 0, x, e => (x, e)
  | fuel + 1, x, e =>
    if e < -308 && x != 0.0 then scaleDown fuel (x / 1e308) (e + 308) else (x, e)

/-- `significand * 10 ^ exponent`, by one multiplication or division. -/
def scaled (negative : Bool) (significand : Nat) (exponent : Int) : Step Json := do
  let sign (x : Float) : Json := .float (if negative then -x else x)
  let x := Float.ofNat significand
  if 0 ≤ exponent then
    if x == 0.0 then return sign x
    else if 308 < exponent then failHere .numberOutOfRange
    else
      let y := x * Float.ofScientific 1 false exponent.toNat
      if y.isInf then failHere .numberOutOfRange else return sign y
  else
    let (x, e) := scaleDown 8 x exponent
    if x == 0.0 then return sign x
    else return sign (x / Float.ofScientific 1 false (-e).toNat)

/-- The exponent of a number, after its mark. -/
def exponent (negative : Bool) (significand : Nat) (start : Int) : Step Json := do
  skip
  let negativeExponent ← do
    match ← peek with
    | some '+' => skip; pure false
    | some '-' => skip; pure true
    | _ => pure false
  match ← peek with
  | none => failHere .endInValue
  | some first =>
    if !isDigit first then failNext .invalidNumber
    else
      skip
      let before ← get
      let digits ← takeDigits
      let (size, used) := accumulate exponentLimit (digitValue first) digits
      if used < digits.length then
        if significand ≠ 0 && !negativeExponent then
          throw ⟨.numberOutOfRange, before.bytes + used + 1⟩
        else return .float (if negative then -0.0 else 0.0)
      else scaled negative significand (if negativeExponent then start - size else start + size)

/-- The fraction of a number, after its point. -/
def fraction (negative : Bool) (significand : Nat) (start : Int) : Step Json := do
  skip
  let digits ← takeDigits
  if digits.isEmpty then
    match ← peek with
    | some _ => failNext .invalidNumber
    | none => failNext .endInValue
  else
    let (total, used) := accumulate significandLimit significand digits
    match ← peek with
    | some 'e' | some 'E' => exponent negative total (start - used)
    | _ => scaled negative total (start - used)

/-- What follows the digits of the whole part. -/
def numberTail (negative : Bool) (significand : Nat) (dropped : Nat) : Step Json := do
  match ← peek with
  | some '.' => fraction negative significand dropped
  | some 'e' | some 'E' => exponent negative significand dropped
  | _ =>
    if dropped ≠ 0 then scaled negative significand dropped
    else if !negative then return .int significand
    else if significand = 0 || Nat.pow 2 63 < significand then return .float (-(Float.ofNat significand))
    else return .int (-significand)

/-- A number after its sign. -/
def number (negative : Bool) : Step Json := do
  match ← peek with
  | none => failHere .endInValue
  | some '0' =>
    skip
    match ← peek with
    | some c => if isDigit c then failNext .invalidNumber else numberTail negative 0 0
    | none => numberTail negative 0 0
  | some first =>
    if !isDigit first then failNext .invalidNumber
    else
      skip
      let digits ← takeDigits
      let (total, used) := accumulate significandLimit (digitValue first) digits
      numberTail negative total (digits.length - used)

/-- The items of a list, after its bracket. The fuel bounds their number. -/
def items (value : Step Json) : Nat → List Json → Step (List Json)
  | 0, _ => failNext .endInList
  | fuel + 1, acc => do
    match ← peekAfterSpace with
    | none => failNext .endInList
    | some ']' => skip; return acc.reverse
    | some c =>
      if acc.isEmpty then
        let v ← value
        items value fuel (v :: acc)
      else if c = ',' then
        skip
        match ← peekAfterSpace with
        | some ']' => failNext .trailingComma
        | some _ => do
          let v ← value
          items value fuel (v :: acc)
        | none => failNext .endInValue
      else failNext .expectedListEnd

/-- One member of an object, at its opening quote. -/
def member (value : Step Json) (acc : List (String × Json)) : Step (List (String × Json)) := do
  skip
  let name ← string
  match ← peekAfterSpace with
  | some ':' => do
    skip
    let v ← value
    return Entries.set name v acc
  | some _ => failNext .expectedColon
  | none => failNext .endInObject

/-- The members of an object, after its brace. The fuel bounds their number. -/
def members (value : Step Json) : Nat → Bool → List (String × Json) → Step (List (String × Json))
  | 0, _, _ => failNext .endInObject
  | fuel + 1, first, acc => do
    match ← peekAfterSpace with
    | none => failNext .endInObject
    | some '}' => skip; return acc
    | some c =>
      if first then
        if c = '"' then members value fuel false (← member value acc) else failNext .keyNotString
      else if c = ',' then
        skip
        match ← peekAfterSpace with
        | some '"' => members value fuel false (← member value acc)
        | some '}' => failNext .trailingComma
        | some _ => failNext .keyNotString
        | none => failNext .endInValue
      else failNext .expectedObjectEnd

/-- A value. The first argument is how many containers may still be opened. -/
def value : Nat → Step Json
  | 0 => failNext .tooDeep
  | depth + 1 => do
    match ← peekAfterSpace with
    | none => failNext .endInValue
    | some 'n' => skip; word ['u', 'l', 'l']; return .null
    | some 't' => skip; word ['r', 'u', 'e']; return .bool true
    | some 'f' => skip; word ['a', 'l', 's', 'e']; return .bool false
    | some '"' => skip; return .string (← string)
    | some '-' => skip; number true
    | some '[' =>
      if depth = 0 then failNext .tooDeep
      else
        skip
        return .array (← items (value depth) ((← get).rest.length + 1) [])
    | some '{' =>
      if depth = 0 then failNext .tooDeep
      else
        skip
        return .object (← members (value depth) ((← get).rest.length + 1) true [])
    | some c => if isDigit c then number false else failNext .expectedValue

end Step

/-- The number of levels a reader goes through, of which the last is refused. -/
def depthLimit : Nat := 128

/-- Reads a text that is one document and nothing else. -/
def read (text : List Char) : Except Failure Json := do
  let step : Step Json := do
    let v ← Step.value depthLimit
    match ← Step.peekAfterSpace with
    | none => return v
    | some _ => Step.failNext .trailingCharacters
  return (← step.run ⟨text, 0⟩).1

end FieldScript.Json
