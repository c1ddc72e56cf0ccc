import FieldScript.Composite.Region
import FieldScript.Schema.Token
import FieldScript.Syntax.Parse

/-!
# Extraction of bodies

One walk over the schema tokens of a composite source. Within a container an opening brace outside of
parentheses starts the body of the field in front of it. The body is read as an expression, and the
walk goes on behind the closing brace.
-/

namespace FieldScript

/-- Why the bodies of a source cannot be extracted. -/
inductive ExtractFault where
  | token (fault : Schema.TokenFault)
  | body (cause : Diagnostic)
  | missingName (container : Container) (span : Span)
  /-- More parentheses close than open behind the body that starts at `start`. -/
  | unbalanced (surplus start : Nat) (stop : Nat)
  | notClosed (found : Schema.Token)

/-- The diagnostic of a fault. -/
def ExtractFault.toDiagnostic (source : Source) : ExtractFault → Diagnostic
  | .token fault => fault.toDiagnostic source
  | .body cause => cause
  | .missingName container span =>
    .inComposite .missingFieldName
      ("Found invalid schema. Could not find a name for the " ++ container.name ++ ".")
      (source.location span)
  | .unbalanced surplus start stop =>
    .inComposite .unbalancedParens
      ("Found invalid schema. Unbalanced parentheses (counted -" ++ Nat.repr surplus ++
        ") detected starting at position " ++ Nat.repr start ++ ".")
      (source.location ⟨start, stop⟩)
  | .notClosed found =>
    .inComposite .unexpectedToken
      ("Found invalid token. Expected '\x7d', but found '" ++ found.kind.describe ++ "'.")
      (source.location found.span)

namespace Extract

open FieldScript.Schema (Cursor)

/-- The container whose fields follow, given the tokens in front of an opening brace, last first. -/
def openedContainer? : List Schema.Token → Option Container
  | name :: keyword :: _ =>
    if keyword.name? = some "type" then name.name?.bind Container.ofName? else none
  | _ => none

/-- What a backward search for a field's name has passed. -/
structure Passed where
  colon : Bool
  closing : Bool
  opening : Bool

/-- The name of the field whose body follows, given the tokens in front of it, last first. It is the
first name behind a colon outside of the field's parentheses. -/
def fieldName? (p : Passed) : List Schema.Token → Option String
  | [] => none
  | t :: rest =>
    match t.kind with
    | .colon => if p.colon && !p.closing then none else fieldName? { p with colon := true } rest
    | .closeParen => fieldName? { p with closing := true } rest
    | .openParen => if p.closing then fieldName? { p with opening := true } rest else none
    | .name name => if p.colon && p.closing == p.opening then some name else fieldName? p rest
    | _ => fieldName? p rest

/-- The next token. -/
def next (c : Cursor) : Except ExtractFault (Schema.Token × Cursor) :=
  (Schema.scanToken c).mapError .token

/-- The first token that is no closing parenthesis, and how many of them stand in front of it. The
fuel bounds their number. -/
def skipClosing : Nat → Nat → Cursor → Except ExtractFault (Nat × Schema.Token × Cursor)
  | 0, n, c => do
    let (t, c) ← next c
    return (n, t, c)
  | fuel + 1, n, c => do
    let (t, c) ← next c
    if t.kind = .closeParen then skipClosing fuel (n + 1) c else return (n, t, c)

/-- The body behind an opening brace, the span of its closing brace and the cursor behind that. -/
def body (source : Source) (start : Nat) : Except ExtractFault (Expr × Span × Cursor) := do
  let parsed ← (source.exprAt start).mapError .body
  let (surplus, t, c) ← skipClosing source.size 0 (Cursor.ofOffset source parsed.stop)
  if 0 < surplus then .error (.unbalanced surplus start t.span.start)
  else if t.kind = .closeBrace then return (parsed.expr, t.span, c)
  else .error (.notClosed t)

/-- Where the walk is. -/
structure State where
  /-- The tokens so far, last first. -/
  before : List Schema.Token
  container : Option Container
  /-- The parentheses that are open. -/
  depth : Nat
  found : Extraction

/-- What a token outside of bodies does to the state. -/
def State.pass (s : State) (t : Schema.Token) : State :=
  let s' := match s.container, t.kind with
    | some _, .closeBrace => if s.depth = 0 then { s with container := none } else s
    | some _, .openParen => { s with depth := s.depth + 1 }
    | some _, .closeParen => { s with depth := s.depth - 1 }
    | none, .openBrace => { s with container := openedContainer? s.before, depth := 0 }
    | _, _ => s
  { s' with before := t :: s.before }

/-- Walks to the end of the source. The fuel bounds the number of tokens. -/
def walk (source : Source) : Nat → Cursor → State → Except ExtractFault Extraction
  | 0, _, s => return s.found
  | fuel + 1, c, s => do
    let (t, c) ← next c
    if t.kind = .eof then return s.found
    match s.container with
    | some container =>
      if t.kind = .openBrace && s.depth = 0 then
        match fieldName? ⟨false, false, false⟩ s.before with
        | none => .error (.missingName container t.span)
        | some field =>
          let (expr, close, c) ← body source t.span.stop
          let region : Region := ⟨container, field, t.span.merge close⟩
          walk source fuel c { s with found := s.found.add region expr }
      else walk source fuel c (s.pass t)
    | none => walk source fuel c (s.pass t)

end Extract

/-- The bodies of a composite source. -/
def extract (source : Source) : Except Diagnostic Extraction :=
  (Extract.walk source (source.size + 1) (Schema.Cursor.ofOffset source 0)
    ⟨[], none, 0, .empty⟩).mapError (·.toDiagnostic source)

end FieldScript
