import FieldScript.Json.Basic
import FieldScript.Decimal.Layout

/-!
# The text of documents

Two forms: compact, without any space, and indented by two spaces a level.
-/

namespace FieldScript.Json

/-- Numbers with a fraction: positional from `10 ^ -5` up to `10 ^ 16`, and never without a
fraction or a power of ten. -/
def floatLayout : Decimal.Layout where
  positional e := -5 ≤ e && e < 16
  wholeFraction := true
  tie := .toEven
  signedZero := true
  nan := "null"
  infinity := "null"

/-- How one character stands inside quotes. -/
def escapeChar (c : Char) : List Char :=
  if c = '"' then ['\\', '"']
  else if c = '\\' then ['\\', '\\']
  else if c = '\n' then ['\\', 'n']
  else if c = '\r' then ['\\', 'r']
  else if c = '\t' then ['\\', 't']
  else if c = '\x08' then ['\\', 'b']
  else if c = '\x0c' then ['\\', 'f']
  else if c.toNat < 0x20 then
    let digits := Nat.toDigits 16 c.toNat
    ['\\', 'u'] ++ List.replicate (4 - digits.length) '0' ++ digits
  else [c]

/-- A text in quotes. -/
def quoted (s : String) : String :=
  String.ofList ('"' :: s.toList.flatMap escapeChar ++ ['"'])

/-- The text of a value that holds no other. -/
def renderScalar : Json → String
  | .null => "null"
  | .bool b => if b then "true" else "false"
  | .int n => if n < 0 then "-" ++ Nat.repr n.natAbs else Nat.repr n.natAbs
  | .float x => floatLayout.render x
  | .string s => quoted s
  | .array _ => ""
  | .object _ => ""

mutual

/-- The compact text of a document. -/
def render : Json → String
  | .array items => "[" ++ renderItems items ++ "]"
  | .object members => "\x7b" ++ renderMembers members ++ "\x7d"
  | .null => "null"
  | .bool b => renderScalar (.bool b)
  | .int n => renderScalar (.int n)
  | .float x => renderScalar (.float x)
  | .string s => renderScalar (.string s)

/-- The compact texts of items with commas between them. -/
def renderItems : List Json → String
  | [] => ""
  | item :: rest =>
    match rest with
    | [] => render item
    | _ :: _ => render item ++ "," ++ renderItems rest

/-- The compact texts of members with commas between them. -/
def renderMembers : List (String × Json) → String
  | [] => ""
  | (name, value) :: rest =>
    match rest with
    | [] => quoted name ++ ":" ++ render value
    | _ :: _ => quoted name ++ ":" ++ render value ++ "," ++ renderMembers rest

end

/-- A line end followed by the indentation of a level. -/
def newLine (level : Nat) : String :=
  String.ofList ('\n' :: List.replicate (2 * level) ' ')

mutual

/-- The indented text of a document at a level. -/
def renderIndented (level : Nat) : Json → String
  | .array [] => "[]"
  | .array (item :: rest) =>
    "[" ++ renderIndentedItems (level + 1) (item :: rest) ++ newLine level ++ "]"
  | .object [] => "\x7b\x7d"
  | .object (member :: rest) =>
    "\x7b" ++ renderIndentedMembers (level + 1) (member :: rest) ++ newLine level ++ "\x7d"
  | .null => "null"
  | .bool b => renderScalar (.bool b)
  | .int n => renderScalar (.int n)
  | .float x => renderScalar (.float x)
  | .string s => renderScalar (.string s)

/-- Each item on a line of its own, with commas between them. -/
def renderIndentedItems (level : Nat) : List Json → String
  | [] => ""
  | item :: rest =>
    match rest with
    | [] => newLine level ++ renderIndented level item
    | _ :: _ => newLine level ++ renderIndented level item ++ "," ++ renderIndentedItems level rest

/-- Each member on a line of its own, with commas between them. -/
def renderIndentedMembers (level : Nat) : List (String × Json) → String
  | [] => ""
  | (name, value) :: rest =>
    let text := newLine level ++ quoted name ++ ": " ++ renderIndented level value
    match rest with
    | [] => text
    | _ :: _ => text ++ "," ++ renderIndentedMembers level rest

end

end FieldScript.Json
