import FieldScript.Syntax.Parse.Statement

/-!
# Reading field bodies

The grammar tied together: every level of nesting is parsed by the level below. Since a parser goes
one level down only behind a token it has consumed, as many levels as there are tokens suffice.
-/

namespace FieldScript

namespace Parse

/-- The grammar for trees of a bounded depth. -/
def grammar : Nat → Grammar
  | 0 => ⟨exhausted, fun _ => exhausted, exhausted, exhausted, exhausted⟩
  | depth + 1 =>
    { assignment := fun s => assignment (grammar depth) s
      binary := fun least s => binary (grammar depth) least s
      unary := fun s => unary (grammar depth) s
      statement := fun s => statement (grammar depth) s
      bindingTarget := fun s => bindingTarget (grammar depth) s }

/-- An expression that may be followed by anything, and the state behind it. -/
def run (stream : Token.Stream) (offset : Nat) : Except SyntaxFault (Expr × State) :=
  let g := grammar (stream.length + 1)
  (sequence g (assignment g)).run ⟨stream, offset⟩

end Parse

/-- An expression and the offset just behind its last token. -/
structure Parsed where
  expr : Expr
  stop : Nat

namespace Source

/-- Reads the expression that starts at an offset. Reading stops in front of the first token that
cannot continue the expression. -/
def exprAt (source : Source) (offset : Nat) : Except Diagnostic Parsed :=
  match Parse.run (.ofSource source offset) offset with
  | .ok (e, state) => .ok ⟨e, state.lastEnd⟩
  | .error fault => .error (fault.toDiagnostic source)

/-- Reads a source that is one expression and nothing else. -/
def expr (source : Source) : Except Diagnostic Expr :=
  let whole : Except SyntaxFault Expr := do
    let (e, state) ← Parse.run (.ofSource source 0) 0
    let last ← Parse.nth 0 state.stream
    if last.isEof then return e
    else
      let (e, _) ← (Parse.unexpected : Parse.Parser Expr).run state
      return e
  whole.mapError (·.toDiagnostic source)

end Source
end FieldScript
