import FieldScript.Text.Class

/-!
# Lexemes of schema documents

A schema document is read as words, numbers, texts and marks, each with the line and column at which
it starts. What cannot be read is a lexeme of its own kind, which no rule of the grammar accepts, and
so it is reported where it stands.

Columns count characters, with two exceptions: a tab counts for eight, and a carriage return or a byte
order mark for none. A comment reaches up to the next line feed or carriage return, which starts a new
line; its characters count for nothing.
-/

namespace FieldScript.Schema

open FieldScript.Text

/-- A line and a column, counted from one. -/
structure Place where
  line : Nat
  column : Nat
deriving DecidableEq, Repr, Inhabited

namespace Place

/-- The place `n` columns further on. -/
def advance (p : Place) (n : Nat) : Place := ⟨p.line, p.column + n⟩

/-- The start of the next line. -/
def nextLine (p : Place) : Place := ⟨p.line + 1, 1⟩

/-- The place behind a text. -/
def behind (p : Place) (text : List Char) : Place :=
  text.foldl (fun p c => if c = '\n' then p.nextLine else p.advance 1) p

end Place

/-- What a lexeme is. -/
inductive LexemeKind where
  | name (text : String)
  | number
  | text
  | mark (c : Char)
  | ellipsis
  | unreadable
  | eof
deriving DecidableEq, Repr

/-- A lexeme and the place where it starts. -/
structure Lexeme where
  kind : LexemeKind
  place : Place
deriving DecidableEq, Repr

namespace Lexeme

/-- The text and the place behind what means nothing. The flag says whether a comment is open. -/
def skipBlank : Bool → Place → List Char → Place × List Char
  | _, p, [] => (p, [])
  | true, p, c :: rest =>
    if c = '\n' || c = '\r' then skipBlank false p.nextLine rest else skipBlank true p rest
  | false, p, c :: rest =>
    if c = '\uFEFF' || c = '\r' then skipBlank false p rest
    else if c = '\t' then skipBlank false (p.advance 8) rest
    else if c = '\n' then skipBlank false p.nextLine rest
    else if c = ' ' || c = ',' then skipBlank false (p.advance 1) rest
    else if c = '#' then skipBlank true p rest
    else (p, c :: rest)

/-! ## Numbers -/

/-- Whether a text is a whole number without superfluous zeros. -/
def isWhole (text : List Char) : Bool :=
  let digits := match text with
    | '-' :: rest => rest
    | all => all
  digits = ['0'] || (!digits.isEmpty && digits.head? ≠ some '0' && digits.all isDigit)

/-- Whether a whole number fits 64 bits with a sign. -/
def fits (text : List Char) : Bool :=
  match text with
  | '-' :: digits => digitsValue 10 digits ≤ Nat.pow 2 63
  | digits => digitsValue 10 digits < Nat.pow 2 63

/-- Whether a text is the power of a number: digits with an optional sign. -/
def isPower (text : List Char) : Bool :=
  let digits := match text with
    | '-' :: rest | '+' :: rest => rest
    | all => all
  !digits.isEmpty && digits.all isDigit

/-- Whether a text is a number with an optional fraction and power. -/
def isNumber (text : List Char) : Bool :=
  let isPowerMark (c : Char) : Bool := c = 'e' || c = 'E'
  let size := text.takeWhile fun c => !isPowerMark c
  let power := text.drop size.length
  let whole := size.takeWhile (· ≠ '.')
  let fraction := size.drop whole.length
  let powerOk := power.isEmpty || isPower (power.drop 1)
  let fractionOk := fraction.isEmpty || (1 < fraction.length && (fraction.drop 1).all isDigit)
  let plain := power.isEmpty && fraction.isEmpty
  isWhole whole && fractionOk && powerOk && (!plain || fits whole)

/-- Whether a character ends a number. -/
def endsNumber (c : Char) : Bool :=
  " \n\r\t,#!$:=@|&()[]\x7b\x7d".toList.contains c

/-! ## Texts -/

/-- The characters of a text up to its closing quote, without it; none if a line ends before. -/
def quoted? : Bool → List Char → Option (List Char)
  | _, [] => none
  | escaped, c :: rest =>
    if c = '"' && !escaped then some []
    else if c = '\n' then none
    else (quoted? (!escaped && c = '\\') rest).map (c :: ·)

/-- Whether every escape of a text is known. -/
def escapesOk : List Char → Bool
  | [] => true
  | '\\' :: 'u' :: a :: b :: c :: d :: rest =>
    let digits := if a = '+' then [b, c, d] else [a, b, c, d]
    digits.all (isDigitOf 16) && (digitsValue 16 digits).isValidChar && escapesOk rest
  | '\\' :: c :: rest => ['"', '\\', '/', 'b', 'f', 'n', 'r', 't'].contains c && escapesOk rest
  | _ :: rest => escapesOk rest

/-- The characters of a text up to three closing quotes, without them. Quotes behind a backslash
close nothing. -/
def blockQuoted? (afterBackslash : Bool) : List Char → Option (List Char)
  | '"' :: '"' :: '"' :: rest =>
    if afterBackslash then (blockQuoted? false rest).map (['"', '"', '"'] ++ ·) else some []
  | c :: rest => (blockQuoted? (c = '\\') rest).map (c :: ·)
  | [] => none

/-! ## Lexemes -/

/-- Whether a character may start a name. -/
def isNameStart (c : Char) : Bool := c.isAlpha || c = '_'

/-- Whether a character may continue a name. -/
def isNamePart (c : Char) : Bool := isNameStart c || isDigit c

/-- How deep brackets of all kinds may be nested. -/
def maxNesting : Nat := 50

/-- The kind of the lexeme that a text starts with, and its characters. -/
def scan (nesting : Nat) (text : List Char) : LexemeKind × List Char :=
  match text with
  | [] => (.eof, [])
  | '.' :: '.' :: '.' :: _ => (.ellipsis, ['.', '.', '.'])
  | '"' :: '"' :: '"' :: rest =>
    match blockQuoted? false rest with
    | some inner => (.text, ['"', '"', '"'] ++ inner ++ ['"', '"', '"'])
    | none => (.unreadable, [])
  | c :: rest =>
    if ['(', '[', '{'].contains c then
      if nesting < maxNesting then (.mark c, [c]) else (.unreadable, [])
    else if [')', ']', '}', '!', '$', ':', '=', '@', '|', '&'].contains c then (.mark c, [c])
    else if isNameStart c then
      let word := text.takeWhile isNamePart
      (.name (String.ofList word), word)
    else if c = '-' || isDigit c then
      let word := c :: rest.takeWhile fun c => !endsNumber c
      if isNumber word then (.number, word) else (.unreadable, [])
    else if c = '"' then
      match quoted? false rest with
      | some inner => if escapesOk inner then (.text, ['"'] ++ inner ++ ['"']) else (.unreadable, [])
      | none => (.unreadable, [])
    else (.unreadable, [])

/-- How many brackets are open behind a lexeme. -/
def nestingAfter (nesting : Nat) : LexemeKind → Nat
  | .mark c =>
    if ['(', '[', '{'].contains c then nesting + 1
    else if [')', ']', '}'].contains c then nesting - 1
    else nesting
  | _ => nesting

/-- The lexemes of a text, up to its end or to what cannot be read. The fuel bounds their number. -/
def all : Nat → Nat → Place → List Char → List Lexeme
  | 0, _, p, _ => [⟨.eof, p⟩]
  | fuel + 1, nesting, p, text =>
    let (p, text) := skipBlank false p text
    let (kind, chars) := scan nesting text
    if chars.isEmpty then [⟨kind, p⟩]
    else
      ⟨kind, p⟩ :: all fuel (nestingAfter nesting kind) (p.behind chars) (text.drop chars.length)

/-- The lexemes of a document. -/
def ofText (text : List Char) : List Lexeme := all (text.length + 1) 0 ⟨1, 1⟩ text

end Lexeme
end FieldScript.Schema
