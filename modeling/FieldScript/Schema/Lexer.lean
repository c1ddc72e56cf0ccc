import FieldScript.Schema.Token

/-!
# Reading a schema token by token

A lexer is a position in a text. Each call reads the next token and moves the position behind it; behind a fault the
position is where the scan has stopped. In between, the position may be set anew.
-/

namespace FieldScript.Schema

/-- A text and the position at which reading goes on. -/
structure Lexer where
  source : Source
  position : Nat
deriving DecidableEq, Repr

namespace Lexer

/-- At the start of a text. -/
def start (source : Source) : Lexer := ⟨source, 0⟩

/-- Goes on at an offset, at the end of the text for offsets beyond it. -/
def reset (l : Lexer) (offset : Nat) : Lexer := { l with position := min offset l.source.size }

/-- The text in front of the position is passed. -/
def cursor (l : Lexer) : Cursor := .ofOffset l.source l.position

/-- The next token, and the lexer for the call after that. -/
def next (l : Lexer) : Scan Token × Lexer :=
  match scanToken l.cursor with
  | .ok (t, behind) => (.ok t, { l with position := behind.offset })
  | .error fault => (.error fault, { l with position := fault.resume })

end Lexer
end FieldScript.Schema
