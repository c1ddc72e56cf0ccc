import FieldScript.Syntax.Parse.Pattern

/-!
# Parsing: expressions

From the loosest to the tightest: sequences, assignments and arrow functions, conditionals, the
infix operators by precedence, the operators in front, the stepping operators behind, chains of
member accesses and calls, and the expressions without operators.
-/

namespace FieldScript.Parse

open Token (Stream)

/-! ## Operators -/

/-- An infix operator. -/
inductive InfixOp where
  | binary (op : BinaryOp)
  | logical (op : LogicalOp)
deriving DecidableEq, Repr

/-- The precedence of an infix operator; larger ones bind tighter. -/
def InfixOp.precedence : InfixOp → Nat
  | .logical .or | .logical .nullish => 1
  | .logical .and => 2
  | .binary .bitOr => 3
  | .binary .bitXor => 4
  | .binary .bitAnd => 5
  | .binary .eq | .binary .notEq | .binary .strictEq | .binary .strictNotEq => 6
  | .binary .less | .binary .greater | .binary .lessEq | .binary .greaterEq => 7
  | .binary .isIn | .binary .instanceOf => 7
  | .binary .shl | .binary .shr | .binary .ushr => 8
  | .binary .add | .binary .sub => 9
  | .binary .mul | .binary .div | .binary .mod => 10
  | .binary .exp => 11

/-- The least precedence that the right operand may have. Only powers group to the right. -/
def InfixOp.rightPrecedence (op : InfixOp) : Nat :=
  if op = .binary .exp then op.precedence else op.precedence + 1

/-- The tree of an infix operator. -/
def InfixOp.apply (op : InfixOp) (left right : Expr) : Expr :=
  let span := left.span.merge right.span
  match op with
  | .binary op => .binary op left right span
  | .logical op => .logical op left right span

/-- The infix operator that a token is. -/
def infixOp? : Token.Kind → Option InfixOp
  | .punct .or => some (.logical .or)
  | .punct .nullish => some (.logical .nullish)
  | .punct .and => some (.logical .and)
  | .punct .bar => some (.binary .bitOr)
  | .punct .caret => some (.binary .bitXor)
  | .punct .amp => some (.binary .bitAnd)
  | .punct .eq => some (.binary .eq)
  | .punct .notEq => some (.binary .notEq)
  | .punct .strictEq => some (.binary .strictEq)
  | .punct .strictNotEq => some (.binary .strictNotEq)
  | .punct .less => some (.binary .less)
  | .punct .greater => some (.binary .greater)
  | .punct .lessEq => some (.binary .lessEq)
  | .punct .greaterEq => some (.binary .greaterEq)
  | .punct .shl => some (.binary .shl)
  | .punct .shr => some (.binary .shr)
  | .punct .ushr => some (.binary .ushr)
  | .punct .plus => some (.binary .add)
  | .punct .minus => some (.binary .sub)
  | .punct .star => some (.binary .mul)
  | .punct .slash => some (.binary .div)
  | .punct .percent => some (.binary .mod)
  | .punct .exp => some (.binary .exp)
  | .keyword .inWord => some (.binary .isIn)
  | .keyword .instanceofWord => some (.binary .instanceOf)
  | _ => none

/-- The assignment operator that a token is. -/
def assignOp? : Token.Kind → Option AssignOp
  | .punct .assign => some .assign
  | .punct .addAssign => some (.binary .add)
  | .punct .subAssign => some (.binary .sub)
  | .punct .mulAssign => some (.binary .mul)
  | .punct .divAssign => some (.binary .div)
  | .punct .modAssign => some (.binary .mod)
  | .punct .expAssign => some (.binary .exp)
  | .punct .bitAndAssign => some (.binary .bitAnd)
  | .punct .bitOrAssign => some (.binary .bitOr)
  | .punct .bitXorAssign => some (.binary .bitXor)
  | .punct .shlAssign => some (.binary .shl)
  | .punct .shrAssign => some (.binary .shr)
  | .punct .ushrAssign => some (.binary .ushr)
  | .punct .andAssign => some (.logical .and)
  | .punct .orAssign => some (.logical .or)
  | .punct .nullishAssign => some (.logical .nullish)
  | _ => none

/-- The operator with one operand that a token is. -/
def unaryOp? : Token.Kind → Option UnaryOp
  | .punct .bang => some .not
  | .punct .minus => some .neg
  | .punct .plus => some .plus
  | .punct .tilde => some .bitNot
  | .keyword .typeofWord => some .typeOf
  | .keyword .voidWord => some .void
  | .keyword .deleteWord => some .delete
  | _ => none

/-- The stepping operator that a token is. -/
def updateOp? : Token.Kind → Option UpdateOp
  | .punct .increment => some .increment
  | .punct .decrement => some .decrement
  | _ => none

/-! ## Expressions without operators -/

/-- Assignments with commas between them, of which the first is given. The fuel bounds the number
of the others. -/
def moreAssignments (g : Grammar) : Nat → Parser (List Expr)
  | 0 => exhausted
  | fuel + 1 => do
    if ← eatPunct .comma then
      let e ← g.assignment
      return e :: (← moreAssignments g fuel)
    else return []

/-- One expression, or several with commas between them. -/
def sequence (g : Grammar) (first : Parser Expr) : Parser Expr := do
  let e ← first
  if ← atPunct .comma then
    let more ← moreAssignments g (← bound)
    return .sequence (e :: more) (e.span.merge (more.getLastD e).span)
  else return e

/-- An expression inside other syntax. -/
def expression (g : Grammar) : Parser Expr := sequence g g.assignment

/-- An argument of a call or an element of an array. -/
def item (g : Grammar) : Parser Item := do
  if ← eatPunct .ellipsis then return .spread (← g.assignment) else return .expr (← g.assignment)

/-- The substitutions of a template and the texts between them, after its head. The fuel bounds the
number of substitutions. -/
def templateRest (g : Grammar) (start : Span) (parts : List TemplatePart) (exprs : List Expr) :
    Nat → Parser Expr
  | 0 => exhausted
  | fuel + 1 => do
    let e ← expression g
    let t ← advance
    match t.kind with
    | .templateMiddle part => templateRest g start (part :: parts) (e :: exprs) fuel
    | .templateTail part =>
      return .template (part :: parts).reverse (e :: exprs).reverse (start.merge t.span)
    | kind => fail (.unclosedSubstitution kind) t.span

/-- An entry of an object. -/
def property (g : Grammar) : Parser Property := do
  let t ← peek
  if t.isPunct .ellipsis then
    let _ ← advance
    return .spread (← g.assignment)
  else
    let k ← key g
    if ← eatPunct .colon then
      let value ← g.assignment
      return .init k value false (t.span.merge value.span)
    else
      let next ← peek
      if next.isPunct .openParen then fail .objectMethod next.span
      else
        match k, t.kind with
        | .name id, .identifier _ => return .init k (.identifier id.name id.span) true t.span
        | _, _ => unexpected

/-- The statements up to a closing brace. The fuel bounds their number. -/
def statements (g : Grammar) : Nat → Parser (List Stmt)
  | 0 => exhausted
  | fuel + 1 => do
    let t ← peek
    if t.isPunct .closeBrace then return []
    else if t.isEof then unexpected
    else
      let s ← g.statement
      return s :: (← statements g fuel)

/-- Statements between braces. -/
def block (g : Grammar) : Parser Block := do
  let start ← expectPunct .openBrace
  let stmts ← statements g (← bound)
  let close ← expectPunct .closeBrace
  return .mk stmts (start.span.merge close.span)

/-- A function with its keyword. -/
def functionDef (g : Grammar) : Parser FunctionDef := do
  let start ← advance
  let name ← if ← atPunct .openParen then pure none else some <$> bindingName
  let _ ← expectPunct .openParen
  let ps ← params g
  let body ← block g
  return .mk name ps body (start.span.merge body.span)

/-- An expression without operators. -/
def primary (g : Grammar) : Parser Expr := do
  let t ← peek
  let literal (value : LiteralValue) : Parser Expr := do
    let _ ← advance
    return .literal ⟨value, t.text⟩ t.span
  match t.kind with
  | .identifier name =>
    let _ ← advance
    return .identifier name t.span
  | .keyword .asyncWord =>
    let _ ← advance
    return .identifier "async" t.span
  | .number x => literal (.number x)
  | .string s => literal (.string s)
  | .keyword .trueWord => literal (.bool true)
  | .keyword .falseWord => literal (.bool false)
  | .keyword .nullWord => literal .null
  | .keyword .thisWord =>
    let _ ← advance
    return .this t.span
  | .keyword .functionWord => return .function (← functionDef g)
  | .template part =>
    let _ ← advance
    return .template [part] [] t.span
  | .templateHead part =>
    let _ ← advance
    templateRest g t.span [part] [] (← bound)
  | .punct .openParen =>
    let _ ← advance
    let e ← expression g
    let _ ← expectPunct .closeParen
    return e
  | .punct .openBracket =>
    let _ ← advance
    let items ← separatedWithHoles .closeBracket .hole (item g) (← bound)
    let close ← expectPunct .closeBracket
    return .array items (t.span.merge close.span)
  | .punct .openBrace =>
    let _ ← advance
    let props ← separated .closeBrace (property g) (← bound)
    let close ← expectPunct .closeBrace
    return .object props (t.span.merge close.span)
  | _ => unexpected

/-! ## Chains -/

/-- An access to a member, whose key has been consumed. -/
def member (object : Expr) (k : Key) (optional : Bool) : Parser Expr := do
  return .member object k optional (← spanFrom object.span)

/-- An access by a key in brackets, of which the opening one is consumed. -/
def computedMember (g : Grammar) (object : Expr) (optional : Bool) : Parser Expr := do
  let e ← expression g
  let _ ← expectPunct .closeBracket
  member object (.computed e) optional

/-- A call, at its opening parenthesis. -/
def call (g : Grammar) (callee : Expr) (optional : Bool) : Parser Expr := do
  let _ ← expectPunct .openParen
  let args ← separated .closeParen (item g) (← bound)
  let _ ← expectPunct .closeParen
  return .call callee args optional (← spanFrom callee.span)

/-- The links of a chain that starts with an expression. The fuel bounds their number. -/
def chain (g : Grammar) (e : Expr) : Nat → Parser Expr
  | 0 => exhausted
  | fuel + 1 => do
    let t ← peek
    match t.kind with
    | .punct .dot =>
      let _ ← advance
      let name ← propertyName
      chain g (← member e (.name name) false) fuel
    | .punct .optionalDot =>
      let _ ← advance
      let next ←
        if ← atPunct .openParen then call g e true
        else if ← eatPunct .openBracket then computedMember g e true
        else
          let name ← propertyName
          member e (.name name) true
      chain g next fuel
    | .punct .openBracket =>
      let _ ← advance
      chain g (← computedMember g e false) fuel
    | .punct .openParen => chain g (← call g e false) fuel
    | .template _ | .templateHead _ => fail .taggedTemplate t.span
    | _ => return e

/-! ## Operators with operands -/

/-- A chain with an optional stepping operator behind it, on the same line. -/
def suffixed (g : Grammar) : Parser Expr := do
  let e ← chain g (← primary g) (← bound)
  let t ← peek
  match updateOp? t.kind with
  | some op =>
    if t.newlineBefore then return e
    else
      let _ ← advance
      let target ← toSimpleTarget e
      return .update op false target (target.span.merge t.span)
  | none => return e

/-- An operand with the operators in front of it. -/
def unary (g : Grammar) : Parser Expr := do
  let t ← peek
  match unaryOp? t.kind with
  | some op =>
    let _ ← advance
    let arg ← g.unary
    return .unary op arg (t.span.merge arg.span)
  | none =>
    if t.isKeyword .awaitWord then
      let _ ← advance
      let arg ← g.unary
      return .await arg (t.span.merge arg.span)
    else
      match updateOp? t.kind with
      | some op =>
        let _ ← advance
        let target ← toSimpleTarget (← g.unary)
        return .update op true target (t.span.merge target.span)
      | none => suffixed g

/-- Goes on with infix operators of at least a precedence. The fuel bounds their number. -/
def infixFrom (g : Grammar) (least : Nat) (left : Expr) : Nat → Parser Expr
  | 0 => exhausted
  | fuel + 1 => do
    let t ← peek
    match infixOp? t.kind with
    | some op =>
      if op.precedence < least then return left
      else
        let _ ← advance
        let right ← g.binary op.rightPrecedence
        infixFrom g least (op.apply left right) fuel
    | none => return left

/-- Operands with infix operators of at least a precedence between them. -/
def binary (g : Grammar) (least : Nat) : Parser Expr := do
  let left ← unary g
  infixFrom g least left (← bound)

/-- A conditional, or an expression that binds tighter. -/
def conditional (g : Grammar) : Parser Expr := do
  let test ← binary g 1
  if ← eatPunct .question then
    let yes ← g.assignment
    let _ ← expectPunct .colon
    let no ← g.assignment
    return .conditional test yes no (test.span.merge no.span)
  else return test

/-! ## Arrow functions and assignments -/

/-- What follows the parenthesis that closes the one in front, if there is such a parenthesis. All
kinds of brackets count, and so do templates with substitutions. -/
def afterParens : Nat → Stream → Except SyntaxFault (Option Stream)
  | depth, .cons t rest =>
    match t.kind with
    | .punct .openParen | .punct .openBracket | .punct .openBrace => afterParens (depth + 1) rest
    | .punct .closeParen | .punct .closeBracket | .punct .closeBrace =>
      if depth - 1 = 0 then .ok (some rest) else afterParens (depth - 1) rest
    | .templateHead _ => afterParens (depth + 1) rest
    | .templateTail _ => afterParens (depth - 1) rest
    | _ => afterParens depth rest
  | _, .done _ => .ok none
  | _, .failed fault => .error fault

/-- Whether parameters and an arrow come next. -/
def parametersAhead : Stream → Except SyntaxFault Bool
  | .cons t rest =>
    match t.kind with
    | .identifier _ | .keyword .asyncWord => (nth 0 rest).map (·.isPunct .arrow)
    | .punct .openParen => do
      match ← afterParens 0 (.cons t rest) with
      | some after =>
        let next ← nth 0 after
        return next.isPunct .arrow && !next.newlineBefore
      | none => return false
    | _ => .ok false
  | .done _ => .ok false
  | .failed fault => .error fault

/-- Whether an arrow function comes next. -/
def arrowAhead : Stream → Except SyntaxFault Bool
  | .cons t rest =>
    if t.isKeyword .asyncWord then do
      let next ← nth 0 rest
      if next.newlineBefore then return false
      else
        match next.kind with
        | .identifier _ | .punct .openParen => parametersAhead rest
        | .punct .arrow => return true
        | _ => return false
    else parametersAhead (.cons t rest)
  | .done _ => .ok false
  | .failed fault => .error fault

/-- An arrow function. -/
def arrow (g : Grammar) : Parser Expr := do
  let start ← peek
  let isAsync ←
    if start.isKeyword .asyncWord then
      if (← peekNth 1).isPunct .arrow then pure false
      else
        let _ ← advance
        pure true
    else pure false
  let ps ←
    if ← eatPunct .openParen then params g
    else
      let id ← bindingName
      pure [.ident id]
  let _ ← expectPunct .arrow
  let body ←
    if ← atPunct .openBrace then ArrowBody.block <$> block g else ArrowBody.expr <$> g.assignment
  return .arrow ps body isAsync (← spanFrom start.span)

/-- An arrow function, an assignment, or an expression that binds tighter. -/
def assignment (g : Grammar) : Parser Expr := do
  if ← arrowAhead (← get).stream then arrow g
  else
    let left ← conditional g
    match assignOp? (← peek).kind with
    | none => return left
    | some op =>
      let target ← if op = .assign then toPattern left else toSimpleTarget left
      let _ ← advance
      let value ← g.assignment
      return .assign op target value (target.span.merge value.span)

end FieldScript.Parse
