import FieldScript.Syntax.Parse.Expression

/-!
# Parsing: statements

Statements occur in the blocks of arrow functions. A semicolon may be left out at the end of a line,
in front of a closing brace and at the end of the text.
-/

namespace FieldScript.Parse

/-- An expression between parentheses. -/
def parenthesised (g : Grammar) : Parser Expr := do
  let _ ← expectPunct .openParen
  let e ← expression g
  let _ ← expectPunct .closeParen
  return e

/-- One target of a declaration with its initial value. -/
def declarator (g : Grammar) : Parser Declarator := do
  let target ← g.bindingTarget
  let init ← if ← eatPunct .assign then some <$> g.assignment else pure none
  return .mk target init (← spanFrom target.span)

/-- Targets with commas between them. The fuel bounds their number. -/
def declarators (g : Grammar) : Nat → Parser (List Declarator)
  | 0 => exhausted
  | fuel + 1 => do
    let d ← declarator g
    if ← eatPunct .comma then return d :: (← declarators g fuel) else return [d]

/-- The declaration word that a token is. -/
def declKind? (t : Token) : Option DeclKind :=
  if t.isKeyword .constWord then some .const
  else if t.isKeyword .letWord then some .let
  else if t.isKeyword .varWord then some .var
  else none

/-- A declaration, at its word and without the semicolon behind it. -/
def varDecl (g : Grammar) (kind : DeclKind) : Parser VarDecl := do
  let start ← advance
  let ds ← declarators g (← bound)
  return .mk kind ds (← spanFrom start.span)

/-- An expression unless a mark comes next, which is left. -/
def optionalExpr (g : Grammar) (close : Punct) : Parser (Option Expr) := do
  if ← atPunct close then return none else return some (← expression g)

/-- The first clause of a `for` statement. -/
def forInit (g : Grammar) : Parser ForInit := do
  let t ← peek
  if t.isPunct .semicolon then return .absent
  else
    match declKind? t with
    | some kind => return .declare (← varDecl g kind)
    | none => return .expr (← expression g)

/-- A `for` statement, at its keyword. -/
def forStmt (g : Grammar) : Parser Stmt := do
  let start ← advance
  let _ ← expectPunct .openParen
  let init ← forInit g
  let t ← peek
  let foreign := match t.kind with
    | .keyword .inWord | .reserved "of" => true
    | _ => false
  if foreign then fail .unsupportedLoop t.span
  else
    let _ ← expectPunct .semicolon
    let test ← optionalExpr g .semicolon
    let _ ← expectPunct .semicolon
    let update ← optionalExpr g .closeParen
    let _ ← expectPunct .closeParen
    let body ← g.statement
    return .for init test update body (← spanFrom start.span)

/-- A `return` statement, at its keyword. -/
def returnStmt (g : Grammar) : Parser Stmt := do
  let start ← advance
  let t ← peek
  let bare := t.isPunct .semicolon || t.isPunct .closeBrace || t.isEof || t.newlineBefore
  let arg ← if bare then pure none else some <$> expression g
  semicolon
  return .return arg (← spanFrom start.span)

/-- A statement that is only a word. -/
def wordStmt (stmt : Span → Stmt) : Parser Stmt := do
  let start ← advance
  semicolon
  return stmt (← spanFrom start.span)

/-- A statement. -/
def statement (g : Grammar) : Parser Stmt := do
  let t ← peek
  let plain : Parser Stmt := do
    let e ← sequence g (assignment g)
    semicolon
    return .expr e (← spanFrom t.span)
  match t.kind with
  | .punct .openBrace => return .block (← block g)
  | .punct .semicolon =>
    let _ ← advance
    return .empty t.span
  | .keyword .constWord | .keyword .letWord | .keyword .varWord =>
    let decl ← varDecl g ((declKind? t).getD .const)
    semicolon
    return .declare decl (← spanFrom t.span)
  | .keyword .ifWord =>
    let _ ← advance
    let test ← parenthesised g
    let yes ← g.statement
    let no ← if ← eatKeyword .elseWord then some <$> g.statement else pure none
    return .cond test yes no (← spanFrom t.span)
  | .keyword .whileWord =>
    let _ ← advance
    let test ← parenthesised g
    let body ← g.statement
    return .while test body (← spanFrom t.span)
  | .keyword .doWord =>
    let _ ← advance
    let body ← g.statement
    if ← eatKeyword .whileWord then
      let test ← parenthesised g
      let _ ← eatPunct .semicolon
      return .doWhile body test (← spanFrom t.span)
    else unexpected
  | .keyword .forWord => forStmt g
  | .keyword .returnWord => returnStmt g
  | .keyword .breakWord => wordStmt .break
  | .keyword .continueWord => wordStmt .continue
  | .keyword .debuggerWord => wordStmt .debugger
  | .keyword .functionWord =>
    if (← peekNth 1).isPunct .openParen then plain else return .function (← functionDef g)
  | _ => plain

end FieldScript.Parse
