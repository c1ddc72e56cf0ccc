import FieldScript.Text.Class
import FieldScript.Text.Offset
import FieldScript.Diagnostic

/-!
# Tokens of the declarative schema

The marks and words that a schema is written with. Blanks, commas, comments and byte order marks
stand between tokens and have no meaning. Scanning may resume at any offset, because embedded
expressions are jumped over.
-/

namespace FieldScript.Schema

open FieldScript.Text

/-- What a schema token is. -/
inductive TokenKind where
  | bang
  | dollar
  | amp
  | openParen
  | closeParen
  | ellipsis
  | colon
  | equals
  | atSign
  | openBracket
  | closeBracket
  | openBrace
  | pipe
  | closeBrace
  | name (text : String)
  | int (text : String)
  | float (text : String)
  | string (text : String)
  | blockString (text : String)
  | eof
deriving DecidableEq, Repr

/-- How messages refer to a token. -/
def TokenKind.describe : TokenKind → String
  | .bang => "!"
  | .dollar => "$"
  | .amp => "&"
  | .openParen => "("
  | .closeParen => ")"
  | .ellipsis => "..."
  | .colon => ":"
  | .equals => "="
  | .atSign => "@"
  | .openBracket => "["
  | .closeBracket => "]"
  | .openBrace => "\x7b"
  | .pipe => "|"
  | .closeBrace => "\x7d"
  | .name _ => "Name"
  | .int _ => "Int"
  | .float _ => "Float"
  | .string _ => "String"
  | .blockString _ => "BlockString"
  | .eof => "<EOF>"

/-- The text that a token carries beyond its kind. -/
def TokenKind.text? : TokenKind → Option String
  | .name s | .int s | .float s | .string s | .blockString s => some s
  | _ => none

/-- A token of a schema. -/
structure Token where
  kind : TokenKind
  span : Span
deriving DecidableEq, Repr

/-- The word of a name token. -/
def Token.name? (t : Token) : Option String :=
  match t.kind with
  | .name s => some s
  | _ => none

/-- Why a text holds no schema tokens. -/
inductive TokenFault.Cause where
  | unexpectedCharacter (c : Char)
  | expectedDigit
  | unterminatedString
  | invalidUnicodeEscape
  /-- The scan has gone past the end of the text, where there is nothing to look at. -/
  | overrun
deriving DecidableEq, Repr

/-- A cause, the place where it shows, and the offset at which scanning goes on. -/
structure TokenFault where
  cause : TokenFault.Cause
  span : Span
  resume : Nat
deriving DecidableEq, Repr

/-- The wording of a cause. -/
def TokenFault.Cause.message : TokenFault.Cause → String
  | .unexpectedCharacter c => "Syntax Error: Unexpected character '" ++ c.toString ++ "'."
  | .expectedDigit => "Syntax Error: Invalid number, expected digit."
  | .unterminatedString => "Syntax Error: Unterminated string."
  | .invalidUnicodeEscape => "Syntax Error: Invalid Unicode escape sequence."
  | .overrun => "Offset out of bounds."

/-- The diagnostic of a fault in a composite source. -/
def TokenFault.toDiagnostic (f : TokenFault) (source : Source) : Diagnostic :=
  .inComposite .schemaSyntax f.cause.message (source.location f.span)

/-- The text that is left and the offset at which it starts. -/
structure Cursor where
  rest : List Char
  offset : Nat
deriving DecidableEq, Repr

namespace Cursor

/-- The cursor at an offset of a source, at its end for offsets beyond it. -/
def ofOffset (source : Source) (offset : Nat) : Cursor :=
  let offset := min offset source.size
  ⟨(dropBytes? offset source.chars).getD [], offset⟩

/-- Moves past the next `n` characters. -/
def drop (c : Cursor) (n : Nat) : Cursor :=
  ⟨c.rest.drop n, c.offset + byteLength (c.rest.take n)⟩

/-- The characters that `p` holds for, and the cursor behind them. -/
def takeWhile (c : Cursor) (p : Char → Bool) : List Char × Cursor :=
  let chars := c.rest.takeWhile p
  (chars, ⟨c.rest.dropWhile p, c.offset + byteLength chars⟩)

/-- The characters between a cursor and a later one of the same text. -/
def upTo (c later : Cursor) : List Char :=
  c.rest.take (c.rest.length - later.rest.length)

end Cursor

/-- Skips what stands between tokens. -/
def skipIgnored : Bool → Nat → List Char → Cursor
  | _, offset, [] => ⟨[], offset⟩
  | true, offset, c :: rest =>
    if c = '\n' || c = '\r' then skipIgnored false (offset + 1) rest
    else skipIgnored true (offset + c.utf8Size) rest
  | false, offset, c :: rest =>
    if c = '#' then skipIgnored true (offset + 1) rest
    else if c = ' ' || c = '\t' || c = '\n' || c = '\r' || c = ',' || c = '\uFEFF' then
      skipIgnored false (offset + c.utf8Size) rest
    else ⟨c :: rest, offset⟩

/-- The outcome of reading one thing. -/
abbrev Scan (α : Type) := Except TokenFault α

/-- Digits, of which there has to be at least one. The fault reaches `extra` bytes further. -/
def scanDigits (start extra : Nat) (c : Cursor) : Scan Cursor :=
  let (digits, next) := c.takeWhile isDigit
  if digits.isEmpty then .error ⟨.expectedDigit, ⟨start, c.offset + extra⟩, c.offset⟩ else .ok next

/-- A number with an optional sign, fraction and power of ten. -/
def scanNumber (c : Cursor) : Scan (TokenKind × Cursor) := do
  let start := c.offset
  let unsigned := if c.rest.head? = some '-' then c.drop 1 else c
  let whole ← scanDigits start 1 unsigned
  let pointed := whole.rest.head? = some '.'
  let fraction ← if pointed then scanDigits start 0 (whole.drop 1) else .ok whole
  let powered := fraction.rest.head? = some 'e' ∨ fraction.rest.head? = some 'E'
  let next ←
    if powered then
      let mark := fraction.drop 1
      let signed := mark.rest.head? = some '+' ∨ mark.rest.head? = some '-'
      scanDigits start 0 (if signed then mark.drop 1 else mark)
    else .ok fraction
  let text := String.ofList (c.upTo next)
  return (if pointed ∨ powered then .float text else .int text, next)

/-- The character that four hexadecimal digits name. A plus sign may stand for the first one. -/
def unicodeChar? (digits : List Char) : Option Char :=
  let significant := match digits with
    | '+' :: more => more
    | all => all
  let code := digitsValue 16 significant
  if digits.length = 4 && significant.all (isDigitOf 16) && code.isValidChar then
    some (Char.ofNat code)
  else none

/-- An escape, at its backslash. A backslash at the very end is taken for two, and the second one is
behind the end. -/
def scanEscape (c : Cursor) : Scan (Char × Cursor) :=
  match c.rest.drop 1 with
  | [] => .error ⟨.overrun, ⟨c.offset, c.offset + 2⟩, c.offset + 2⟩
  | mark :: rest =>
    let next := c.drop 2
    if mark = 'n' then .ok ('\n', next)
    else if mark = 't' then .ok ('\t', next)
    else if mark = 'r' then .ok ('\r', next)
    else if mark = 'b' then .ok ('\x08', next)
    else if mark = 'f' then .ok ('\x0c', next)
    else if mark = 'u' then
      match unicodeChar? (rest.take 4) with
      | some x => .ok (x, next.drop 4)
      | none => .error ⟨.invalidUnicodeEscape, ⟨next.offset - 2, next.offset⟩, next.offset⟩
    else .ok (mark, next)

/-- The text up to the closing quote, collected in reverse. The fuel bounds the number of steps. -/
def scanString (start : Nat) : Nat → List Char → Cursor → Scan (TokenKind × Cursor)
  | 0, _, c => .error ⟨.unterminatedString, ⟨start, c.offset⟩, c.offset⟩
  | fuel + 1, acc, c =>
    match c.rest with
    | [] => .error ⟨.unterminatedString, ⟨start, c.offset⟩, c.offset⟩
    | x :: _ =>
      if x = '"' then .ok (.string (String.ofList acc.reverse), c.drop 1)
      else if x = '\n' || x = '\r' then .error ⟨.unterminatedString, ⟨start, c.offset⟩, c.offset⟩
      else if x = '\\' then
        match scanEscape c with
        | .ok (y, next) => scanString start fuel (y :: acc) next
        | .error fault => .error fault
      else scanString start fuel (x :: acc) (c.drop 1)

/-- Three quotes. -/
def tripleQuote : List Char := ['"', '"', '"']

/-- The text up to three closing quotes, collected in reverse. Three quotes behind a backslash are
text. The fuel bounds the number of steps. -/
def scanBlockString (start : Nat) : Nat → List Char → Cursor → Scan (TokenKind × Cursor)
  | 0, _, c => .error ⟨.unterminatedString, ⟨start, c.offset⟩, c.offset⟩
  | fuel + 1, acc, c =>
    match c.rest with
    | [] => .error ⟨.unterminatedString, ⟨start, c.offset⟩, c.offset⟩
    | x :: rest =>
      if x = '\\' && tripleQuote.isPrefixOf rest then
        scanBlockString start fuel (tripleQuote ++ acc) (c.drop 4)
      else if tripleQuote.isPrefixOf (x :: rest) then
        .ok (.blockString (String.ofList acc.reverse), c.drop 3)
      else scanBlockString start fuel (x :: acc) (c.drop 1)

/-- The kinds of tokens that are a single mark. -/
def mark? (c : Char) : Option TokenKind :=
  if c = '!' then some .bang
  else if c = '$' then some .dollar
  else if c = '&' then some .amp
  else if c = '(' then some .openParen
  else if c = ')' then some .closeParen
  else if c = ':' then some .colon
  else if c = '=' then some .equals
  else if c = '@' then some .atSign
  else if c = '[' then some .openBracket
  else if c = ']' then some .closeBracket
  else if c = '{' then some .openBrace
  else if c = '|' then some .pipe
  else if c = '}' then some .closeBrace
  else none

def isNameStart (c : Char) : Bool := c.isAlpha || c = '_'

def isNamePart (c : Char) : Bool := c.isAlpha || isDigit c || c = '_'

/-- The token at a cursor where nothing is to be skipped. -/
def scanKind (c : Cursor) : Scan (TokenKind × Cursor) :=
  match c.rest with
  | [] => .ok (.eof, c)
  | x :: rest =>
    match mark? x with
    | some kind => .ok (kind, c.drop 1)
    | none =>
      if ['.', '.', '.'].isPrefixOf (x :: rest) then .ok (.ellipsis, c.drop 3)
      else if tripleQuote.isPrefixOf (x :: rest) then
        scanBlockString c.offset (rest.length + 1) [] (c.drop 3)
      else if x = '"' then scanString c.offset (rest.length + 1) [] (c.drop 1)
      else if x = '-' || isDigit x then scanNumber c
      else if isNameStart x then
        let (word, next) := c.takeWhile isNamePart
        .ok (.name (String.ofList word), next)
      else .error ⟨.unexpectedCharacter x, ⟨c.offset, c.offset + x.utf8Size⟩, c.offset⟩

/-- The next token and the cursor behind it. -/
def scanToken (c : Cursor) : Scan (Token × Cursor) :=
  let first := skipIgnored false c.offset c.rest
  (scanKind first).map fun (kind, next) => (⟨kind, ⟨first.offset, next.offset⟩⟩, next)

end FieldScript.Schema
