import FieldScript.Text.Class
import FieldScript.Text.Offset
import FieldScript.Decimal.Read
import FieldScript.Syntax.Fault

/-!
# Reading tokens

A scan turns the text from an offset on into tokens, up to the end of the text or the first fault.
It remembers how deep the braces inside each open substitution of a template are nested, which tells
the brace that ends the substitution from all others. Nothing a later stage does changes what is
scanned, so the whole list can be made in advance.

A slash is always division: there are no literals for regular expressions.
-/

namespace FieldScript.Token

open FieldScript.Text

/-- The text that is left and the offset at which it starts. -/
structure Cursor where
  rest : List Char
  offset : Nat
deriving DecidableEq, Repr

namespace Cursor

/-- Moves past characters that are known to come next. -/
def past (c : Cursor) (chars : List Char) (rest : List Char) : Cursor :=
  ⟨rest, c.offset + byteLength chars⟩

/-- The characters that `p` holds for, and the cursor behind them. -/
def takeWhile (c : Cursor) (p : Char → Bool) : List Char × Cursor :=
  let chars := c.rest.takeWhile p
  (chars, c.past chars (c.rest.dropWhile p))

/-- Moves past the next `n` characters. -/
def drop (c : Cursor) (n : Nat) : Cursor :=
  c.past (c.rest.take n) (c.rest.drop n)

/-- The characters between a cursor and a later one of the same text. -/
def upTo (c later : Cursor) : List Char :=
  c.rest.take (c.rest.length - later.rest.length)

end Cursor

/-- The outcome of reading one thing. -/
abbrev Scan (α : Type) := Except SyntaxFault α

/-- The character of a code point, or the replacement character if there is none. -/
def charOfCode (code : Nat) : Char :=
  if code.isValidChar then Char.ofNat code else '\uFFFD'

/-! ## Blanks and comments -/

/-- What the text at hand is part of. -/
inductive Trivia where
  | code
  | lineComment
  | blockComment (start : Nat)

/-- Blanks of ASCII between tokens. -/
def isAsciiBlank (c : Char) : Bool :=
  c = ' ' || c = '\t' || c = '\r' || c = '\x0b' || c = '\x0c'

/-- Skips blanks and comments; the flag tells whether a line ended on the way. -/
def skipTrivia : Trivia → Nat → Bool → List Char → Scan (Bool × Cursor)
  | .code, offset, newline, [] => .ok (newline, ⟨[], offset⟩)
  | .code, offset, newline, '/' :: '/' :: rest => skipTrivia .lineComment (offset + 2) newline rest
  | .code, offset, newline, '/' :: '*' :: rest =>
    skipTrivia (.blockComment offset) (offset + 2) newline rest
  | .code, offset, newline, c :: rest =>
    if c = '\n' then skipTrivia .code (offset + 1) true rest
    else if isAsciiBlank c then skipTrivia .code (offset + 1) newline rest
    else if 0x80 ≤ c.toNat && isBlank c then
      skipTrivia .code (offset + c.utf8Size) (newline || c = '\u2028' || c = '\u2029') rest
    else .ok (newline, ⟨c :: rest, offset⟩)
  | .lineComment, offset, newline, [] => .ok (newline, ⟨[], offset⟩)
  | .lineComment, offset, newline, c :: rest =>
    if c = '\n' then skipTrivia .code (offset + 1) true rest
    else skipTrivia .lineComment (offset + c.utf8Size) newline rest
  | .blockComment start, offset, _, [] => .error ⟨.unterminatedComment, ⟨start, offset⟩⟩
  | .blockComment _, offset, newline, '*' :: '/' :: rest =>
    skipTrivia .code (offset + 2) newline rest
  | .blockComment start, offset, newline, c :: rest =>
    skipTrivia (.blockComment start) (offset + c.utf8Size) (newline || c = '\n') rest

/-! ## Words and marks -/

/-- ASCII characters that a word may start with. -/
def isWordStart (c : Char) : Bool :=
  c.isAlpha || c = '_' || c = '$'

/-- Characters that a word goes on with. -/
def isWordPart (c : Char) : Bool :=
  isLetterOrNumber c || c = '_' || c = '$'

/-- What a word is. -/
def wordKind (word : String) : Kind :=
  match Keyword.ofWord? word with
  | some k => .keyword k
  | none => if reservedWords.contains word then .reserved word else .identifier word

/-- The longest mark at the start of a text. A question mark, a point and a digit are a question
mark and a number. -/
def leadingPunct? (text : List Char) : Option Punct :=
  Punct.all.find? fun p =>
    p.text.toList.isPrefixOf text &&
      !(p == .optionalDot && (text.drop 2).head?.any isDigit)

/-! ## Numbers -/

/-- Digits and the underscores between them. -/
def isDigitOrGap (c : Char) : Bool := isDigit c || c = '_'

/-- The radix that the second character of a number announces. -/
def radixOf? (mark : Char) : Option Nat :=
  if mark = 'x' ∨ mark = 'X' then some 16
  else if mark = 'o' ∨ mark = 'O' then some 8
  else if mark = 'b' ∨ mark = 'B' then some 2
  else none

/-- A whole number in a radix, at its first digit. It has to fit 64 bits. -/
def scanRadix (start radix : Nat) (c : Cursor) : Scan (Float × Cursor) :=
  let (chars, after) := c.takeWhile fun d => isDigitOf radix d || d = '_'
  let digits := chars.filter (· ≠ '_')
  let value := digitsValue radix digits
  if digits.isEmpty || Nat.pow 2 64 ≤ value then .error ⟨.invalidNumber, ⟨start, after.offset⟩⟩
  else .ok (Float.ofNat value, after)

/-- Skips a power of ten if a complete one comes next. -/
def skipPower (c : Cursor) : Cursor :=
  match c.rest with
  | mark :: rest =>
    if mark = 'e' ∨ mark = 'E' then
      let signed : Cursor :=
        match rest with
        | sign :: _ => if sign = '+' ∨ sign = '-' then c.drop 2 else c.drop 1
        | [] => c.drop 1
      if signed.rest.head?.any isDigit then (signed.takeWhile isDigitOrGap).2 else c
    else c
  | [] => c

/-- A decimal number. -/
def scanDecimal (c : Cursor) : Scan (Float × Cursor) :=
  let afterWhole := (c.takeWhile isDigitOrGap).2
  let afterFraction :=
    if afterWhole.rest.head? = some '.' then ((afterWhole.drop 1).takeWhile isDigitOrGap).2
    else afterWhole
  let after := skipPower afterFraction
  if after.rest.head?.any isWordStart then
    .error ⟨.wordAfterNumber, ⟨c.offset, after.offset + 1⟩⟩
  else
    match Decimal.readUnsigned? ((c.upTo after).filter (· ≠ '_')) with
    | some x => .ok (x, after)
    | none => .error ⟨.invalidNumber, ⟨c.offset, after.offset⟩⟩

/-- A number. -/
def scanNumber (c : Cursor) : Scan (Float × Cursor) :=
  match c.rest with
  | '0' :: mark :: _ =>
    match radixOf? mark with
    | some radix => scanRadix c.offset radix (c.drop 2)
    | none => scanDecimal c
  | _ => scanDecimal c

/-! ## Texts and templates -/

/-- Exactly `n` hexadecimal digits of the escape that starts at `start`. -/
def scanHex (n start : Nat) (c : Cursor) : Scan (Char × Cursor) :=
  let digits := c.rest.take n
  if digits.length = n && digits.all (isDigitOf 16) then
    .ok (charOfCode (digitsValue 16 digits), c.drop n)
  else .error ⟨.invalidHexEscape, ⟨start, c.offset⟩⟩

/-- A code point in braces, at the character behind the opening one. -/
def scanBraced (start : Nat) (c : Cursor) : Scan (Char × Cursor) :=
  let (digits, after) := c.takeWhile (isDigitOf 16)
  if after.rest.head? = some '}' then
    let code := if digits.isEmpty then 0xFFFD else digitsValue 16 digits
    .ok (charOfCode code, after.drop 1)
  else .error ⟨.invalidUnicodeEscape, ⟨start, after.offset⟩⟩

/-- An escape, at its backslash: what it stands for and the cursor behind it. -/
def scanEscape (c : Cursor) : Scan (List Char × Cursor) :=
  let start := c.offset
  match (c.drop 1).rest with
  | [] => .error ⟨.endInEscape, ⟨start, start + 1⟩⟩
  | mark :: rest =>
    let after := c.drop 2
    if mark = 'n' then .ok (['\n'], after)
    else if mark = 't' then .ok (['\t'], after)
    else if mark = 'r' then .ok (['\r'], after)
    else if mark = 'b' then .ok (['\x08'], after)
    else if mark = 'f' then .ok (['\x0c'], after)
    else if mark = 'v' then .ok (['\x0b'], after)
    else if mark = '0' && !rest.head?.any isDigit then .ok (['\x00'], after)
    else if mark = 'x' then (scanHex 2 start after).map fun (x, next) => ([x], next)
    else if mark = 'u' then
      if rest.head? = some '{' then
        (scanBraced start (after.drop 1)).map fun (x, next) => ([x], next)
      else (scanHex 4 start after).map fun (x, next) => ([x], next)
    else if mark = '\n' then .ok ([], after)
    else if mark = '\r' then
      .ok ([], if rest.head? = some '\n' then after.drop 1 else after)
    else .ok ([mark], after)

/-- The text up to the closing quote, collected in reverse. The fuel bounds the number of steps. -/
def scanString (quote : Char) (start : Nat) : Nat → List Char → Cursor → Scan (String × Cursor)
  | 0, _, c => .error ⟨.unterminatedString, ⟨start, c.offset⟩⟩
  | fuel + 1, acc, c =>
    match c.rest with
    | [] => .error ⟨.unterminatedString, ⟨start, c.offset⟩⟩
    | x :: _ =>
      if x = '\n' then .error ⟨.unterminatedString, ⟨start, c.offset⟩⟩
      else if x = quote then .ok (String.ofList acc.reverse, c.drop 1)
      else if x = '\\' then
        match scanEscape c with
        | .ok (chars, next) => scanString quote start fuel (chars.reverse ++ acc) next
        | .error fault => .error fault
      else scanString quote start fuel (x :: acc) (c.drop 1)

/-- How a piece of template text ends. -/
inductive TemplateEnd where
  | closed
  | substitution

/-- Template text from `first` on, with its escapes resolved in reverse. The fuel bounds the number
of steps. Line ends are made uniform. -/
def scanTemplate (start : Nat) (first : Cursor) :
    Nat → List Char → Cursor → Scan (TemplatePart × TemplateEnd × Cursor)
  | 0, _, c => .error ⟨.unterminatedTemplate, ⟨start, c.offset⟩⟩
  | fuel + 1, acc, c =>
    let part : TemplatePart := ⟨String.ofList (first.upTo c), String.ofList acc.reverse⟩
    match c.rest with
    | [] => .error ⟨.unterminatedTemplate, ⟨start, c.offset⟩⟩
    | x :: rest =>
      if x.toNat = 96 then .ok (part, .closed, c.drop 1)
      else if x = '$' && rest.head? = some '{' then .ok (part, .substitution, c.drop 2)
      else if x = '\\' then
        match scanEscape c with
        | .ok (chars, next) => scanTemplate start first fuel (chars.reverse ++ acc) next
        | .error fault => .error fault
      else if x = '\r' then
        let next := if rest.head? = some '\n' then c.drop 2 else c.drop 1
        scanTemplate start first fuel ('\n' :: acc) next
      else scanTemplate start first fuel (x :: acc) (c.drop 1)

/-! ## Tokens -/

/-- The depth of the braces inside each open substitution, the innermost first. -/
abbrev Depths := List Nat

/-- The depths after a mark. -/
def Depths.after (depths : Depths) (mark : Punct) : Depths :=
  match depths with
  | [] => []
  | depth :: outer =>
    if mark = .openBrace then (depth + 1) :: outer
    else if mark = .closeBrace then (depth - 1) :: outer
    else depths

/-- The token of a piece of template text. The head of a template differs from what follows a
substitution. -/
def templateKind (head : Bool) (part : TemplatePart) : TemplateEnd → Kind
  | .closed => if head then .template part else .templateTail part
  | .substitution => if head then .templateHead part else .templateMiddle part

/-- The token at a cursor where no blank or comment stands. -/
def scanKind (depths : Depths) (c : Cursor) : Scan (Kind × Depths × Cursor) :=
  match c.rest with
  | [] => .ok (.eof, depths, c)
  | x :: rest =>
    let template (head : Bool) (outer : Depths) : Scan (Kind × Depths × Cursor) :=
      let first := c.drop 1
      match scanTemplate c.offset first (rest.length + 1) [] first with
      | .ok (part, ending, next) =>
        let depths := match ending with
          | .closed => outer
          | .substitution => 0 :: outer
        .ok (templateKind head part ending, depths, next)
      | .error fault => .error fault
    let number : Scan (Kind × Depths × Cursor) :=
      (scanNumber c).map fun (value, next) => (.number value, depths, next)
    if x = '"' || x = '\'' then
      (scanString x c.offset (rest.length + 1) [] (c.drop 1)).map
        fun (s, next) => (.string s, depths, next)
    else if x.toNat = 96 then template true depths
    else if isDigit x then number
    else if x = '.' && rest.head?.any isDigit then number
    else if x = '}' && depths.head? = some 0 then template false depths.tail
    else if isWordStart x || (0x80 ≤ x.toNat && isLetter x) then
      let (word, next) := c.takeWhile isWordPart
      .ok (wordKind (String.ofList word), depths, next)
    else
      match leadingPunct? c.rest with
      | some mark => .ok (.punct mark, depths.after mark, c.drop mark.text.length)
      | none => .error ⟨.unexpectedCharacter x, ⟨c.offset, c.offset + x.utf8Size⟩⟩

/-- The next token and what follows it. -/
def scanToken (depths : Depths) (c : Cursor) : Scan (Token × Depths × Cursor) :=
  match skipTrivia .code c.offset false c.rest with
  | .error fault => .error fault
  | .ok (newline, first) =>
    match scanKind depths first with
    | .error fault => .error fault
    | .ok (kind, depths, next) =>
      let text := String.ofList (first.upTo next)
      .ok (⟨kind, ⟨first.offset, next.offset⟩, newline, text⟩, depths, next)

/-! ## Streams -/

/-- The tokens of a text up to its end or its first fault. -/
inductive Stream where
  | cons (token : Token) (rest : Stream)
  /-- The token that marks the end of the text. -/
  | done (token : Token)
  | failed (fault : SyntaxFault)
deriving Inhabited

namespace Stream

/-- The number of tokens in front of the end. -/
def length : Stream → Nat
  | .cons _ rest => rest.length + 1
  | _ => 0

/-- Scans with a bound on the number of tokens. -/
def scan : Nat → Depths → Cursor → Stream
  | 0, _, c => .failed ⟨.exhausted, .point c.offset⟩
  | fuel + 1, depths, c =>
    match scanToken depths c with
    | .error fault => .failed fault
    | .ok (token, depths, next) =>
      if token.isEof then .done token else .cons token (scan fuel depths next)

/-- The tokens of a source from an offset on. An offset inside a character fails at once. -/
def ofSource (source : Source) (offset : Nat) : Stream :=
  let offset := min offset source.size
  match dropBytes? offset source.chars with
  | some rest => scan (rest.length + 1) [] ⟨rest, offset⟩
  | none => .failed ⟨.unexpectedCharacter '\uFFFD', ⟨offset, offset + 3⟩⟩

/-- The tokens read, the one that marks the end included, and the fault that stopped the scan. -/
def toList : Stream → List Token × Option SyntaxFault
  | .cons token rest =>
    let (tokens, fault) := rest.toList
    (token :: tokens, fault)
  | .done token => ([token], none)
  | .failed fault => ([], some fault)

end Stream
end FieldScript.Token
