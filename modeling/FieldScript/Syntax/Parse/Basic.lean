import FieldScript.Token.Scan

/-!
# Parsing: tokens at hand

A parser consumes a stream of tokens and remembers where the last one ended. The first fault ends
the parse. Looking ahead may run into a fault of the scan, which then ends the parse as well.

Trees nest without bound, so parsers recurse through a `Grammar`, a record of the entry points one
level deeper. A parser goes there only after it has consumed a token.
-/

namespace FieldScript.Parse

open Token (Stream)

/-- The tokens that are left and the end of the last token consumed. -/
structure State where
  stream : Stream
  lastEnd : Nat
deriving Inhabited

/-- A parser of one thing. -/
abbrev Parser (α : Type) := StateT State (Except SyntaxFault) α

/-- The entry points that parsers recurse through. -/
structure Grammar where
  assignment : Parser Expr
  /-- Operators of at least a precedence. -/
  binary : Nat → Parser Expr
  unary : Parser Expr
  statement : Parser Stmt
  bindingTarget : Parser Pattern

/-- The `n`-th token of a stream. Beyond its end there are only end marks. -/
def nth : Nat → Stream → Except SyntaxFault Token
  | 0, .cons t _ => .ok t
  | n + 1, .cons _ rest => nth n rest
  | _, .done t => .ok t
  | _, .failed fault => .error fault

/-- The token at hand. -/
def peek : Parser Token := do
  nth 0 (← get).stream

/-- The `n`-th token after the one at hand. -/
def peekNth (n : Nat) : Parser Token := do
  nth n (← get).stream

/-- Consumes the token at hand. An end mark stays. -/
def advance : Parser Token := do
  match (← get).stream with
  | .cons t rest =>
    set (State.mk rest t.span.stop)
    return t
  | .done t => return t
  | .failed fault => throw fault

/-- The end of the last token consumed. -/
def lastEnd : Parser Nat := return (← get).lastEnd

/-- A bound on the number of tokens left. -/
def bound : Parser Nat := return (← get).stream.length + 1

def fail {α : Type} (cause : SyntaxFault.Cause) (span : Span) : Parser α :=
  throw ⟨cause, span⟩

/-- The recursion bound was too small. -/
def exhausted {α : Type} : Parser α := do
  fail .exhausted (.point (← lastEnd))

/-- Reports the token at hand as out of place. -/
def unexpected {α : Type} : Parser α := do
  let t ← peek
  match t.kind with
  | .reserved word => fail (.unsupportedWord word) t.span
  | kind => fail (.unexpected kind) t.span

def atPunct (mark : Punct) : Parser Bool := return (← peek).isPunct mark

def atKeyword (word : Keyword) : Parser Bool := return (← peek).isKeyword word

/-- Consumes a mark if it comes next. -/
def eatPunct (mark : Punct) : Parser Bool := do
  if ← atPunct mark then
    let _ ← advance
    return true
  else return false

/-- Consumes a keyword if it comes next. -/
def eatKeyword (word : Keyword) : Parser Bool := do
  if ← atKeyword word then
    let _ ← advance
    return true
  else return false

/-- Consumes a mark that has to come next. -/
def expectPunct (mark : Punct) : Parser Token := do
  if ← atPunct mark then advance
  else
    let t ← peek
    fail (.expected mark t.kind) t.span

/-- A name that can be bound. -/
def bindingName : Parser Ident := do
  let t ← peek
  match t.kind with
  | .identifier name =>
    let _ ← advance
    return ⟨name, t.span⟩
  | .keyword .asyncWord =>
    let _ ← advance
    return ⟨"async", t.span⟩
  | _ => unexpected

/-- Any word, as it may stand behind a point or in front of a colon. -/
def propertyName : Parser Ident := do
  let t ← peek
  match t.kind with
  | .identifier name =>
    let _ ← advance
    return ⟨name, t.span⟩
  | .keyword word =>
    let _ ← advance
    return ⟨word.text, t.span⟩
  | .reserved word =>
    let _ ← advance
    return ⟨word, t.span⟩
  | _ => unexpected

/-- The end of a statement: a semicolon, or a place where one may be left out. -/
def semicolon : Parser Unit := do
  if ← eatPunct .semicolon then return ()
  else
    let t ← peek
    if t.isPunct .closeBrace || t.isEof || t.newlineBefore then return ()
    else unexpected

/-- A span widened to the end of the last token consumed. -/
def spanFrom (start : Span) : Parser Span := return start.merge (.point (← lastEnd))

/-- Things with commas between them up to a mark, which is left. The last comma may stand alone.
The fuel bounds their number. -/
def separated {α : Type} (close : Punct) (item : Parser α) : Nat → Parser (List α)
  | 0 => exhausted
  | fuel + 1 => do
    if ← atPunct close then return []
    else
      let x ← item
      if ← eatPunct .comma then return x :: (← separated close item fuel)
      else return [x]

/-- Like `separated`, where things may be left out: a comma without a thing in front of it counts
as `hole`. -/
def separatedWithHoles {α : Type} (close : Punct) (hole : α) (item : Parser α) :
    Nat → Parser (List α)
  | 0 => exhausted
  | fuel + 1 => do
    if ← atPunct close then return []
    else if ← eatPunct .comma then return hole :: (← separatedWithHoles close hole item fuel)
    else
      let x ← item
      if ← eatPunct .comma then return x :: (← separatedWithHoles close hole item fuel)
      else return [x]

end FieldScript.Parse
