import FieldScript.Text.Offset

/-!
# Source texts, spans and positions

A `Source` is a text that offsets refer to. Spans are half-open byte ranges; positions are lines and
columns counted from one, where a column counts characters. Offsets past the end count as the end.
-/

namespace FieldScript

/-- The bytes from `start` up to, and without, `stop`. -/
structure Span where
  start : Nat
  stop : Nat
deriving DecidableEq, Repr, Inhabited

namespace Span

/-- The empty span in front of an offset. -/
def point (offset : Nat) : Span := ⟨offset, offset⟩

/-- The smallest span that covers both. -/
def merge (a b : Span) : Span := ⟨min a.start b.start, max a.stop b.stop⟩

def length (s : Span) : Nat := s.stop - s.start

def isEmpty (s : Span) : Bool := s.length == 0

/-- The written form of a span. -/
def render (s : Span) : String := s!"{s.start}..{s.stop}"

end Span

/-- A place in a text for a reader: the line and column at which `span` starts. -/
structure Location where
  line : Nat
  column : Nat
  span : Span
deriving DecidableEq, Repr, Inhabited

namespace Location

/-- No place at all. -/
def none : Location := ⟨0, 0, ⟨0, 0⟩⟩

/-- The written form of a location. -/
def render (l : Location) : String := s!"{l.line}:{l.column}"

end Location

/-- A text that offsets refer to. -/
structure Source where
  chars : List Char
deriving DecidableEq, Repr, Inhabited

namespace Source

def ofString (text : String) : Source := ⟨text.toList⟩

def toString (s : Source) : String := String.ofList s.chars

/-- The number of bytes of the text. -/
def size (s : Source) : Nat := Text.byteLength s.chars

/-- The offset just past each line feed of a text that starts at `offset`. -/
def startsAfter (offset : Nat) : List Char → List Nat
  | [] => []
  | c :: rest =>
    let next := offset + c.utf8Size
    if c = '\n' then next :: startsAfter next rest else startsAfter next rest

/-- The offset at which each line starts. There is always a first line. -/
def lineStarts (s : Source) : List Nat := 0 :: startsAfter 0 s.chars

/-- The line and column of an offset. Inside a character the column counts bytes. -/
def position (s : Source) (offset : Nat) : Nat × Nat :=
  let offset := min offset s.size
  let starts := s.lineStarts.takeWhile (· ≤ offset)
  let start := starts.getLastD 0
  let column :=
    match Text.slice? start offset s.chars with
    | some text => text.length
    | none => offset - start
  (starts.length, column + 1)

/-- The location of a span. -/
def location (s : Source) (span : Span) : Location :=
  let (line, column) := s.position span.start
  ⟨line, column, span⟩

/-- Splits a text at its line feeds. -/
def splitLines : List Char → List (List Char)
  | [] => [[]]
  | c :: rest =>
    if c = '\n' then [] :: splitLines rest
    else
      match splitLines rest with
      | line :: lines => (c :: line) :: lines
      | [] => [[c]]

/-- The lines of the text without their terminators: a line feed and any carriage returns in
front of it. -/
def lines (s : Source) : List (List Char) :=
  (splitLines s.chars).map fun line => (line.reverse.dropWhile (· = '\r')).reverse

/-- The line of a number counted from one. -/
def line? (s : Source) (number : Nat) : Option (List Char) :=
  if number = 0 then none else s.lines[number - 1]?

def lineCount (s : Source) : Nat := s.lineStarts.length

/-- The length of every line in characters, without terminators. -/
def lineLengths (s : Source) : List Nat := s.lines.map List.length

/-- The text that a span covers, empty if it covers none. -/
def textAt (s : Source) (span : Span) : String :=
  String.ofList (Text.slice span.start span.stop s.chars)

end Source
end FieldScript
