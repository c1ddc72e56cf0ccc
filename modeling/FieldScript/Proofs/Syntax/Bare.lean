import FieldScript.Syntax.Basic

/-!
# Trees without places

Two trees that were read from different texts can only agree up to the places they were read from. The
bare form of a tree has every place replaced by one and the same, so that agreement is an equation.
-/

namespace FieldScript

/-- The one place of bare trees. -/
def Span.nowhere : Span := ⟨0, 0⟩

/-- A name without its place. -/
def Ident.bare (id : Ident) : Ident := ⟨id.name, .nowhere⟩

mutual

/-- An expression without places. -/
def Expr.bare : Expr → Expr
  | .literal lit _ => .literal lit .nowhere
  | .template parts es _ => .template parts (bareExprs es) .nowhere
  | .array items _ => .array (bareItems items) .nowhere
  | .object props _ => .object (bareProperties props) .nowhere
  | .identifier name _ => .identifier name .nowhere
  | .member o k optional _ => .member o.bare k.bare optional .nowhere
  | .call callee args optional _ => .call callee.bare (bareItems args) optional .nowhere
  | .arrow ps body isAsync _ => .arrow (barePatterns ps) body.bare isAsync .nowhere
  | .function fn => .function fn.bare
  | .this _ => .this .nowhere
  | .await e _ => .await e.bare .nowhere
  | .unary op e _ => .unary op e.bare .nowhere
  | .update op before target _ => .update op before target.bare .nowhere
  | .binary op l r _ => .binary op l.bare r.bare .nowhere
  | .logical op l r _ => .logical op l.bare r.bare .nowhere
  | .conditional test yes no _ => .conditional test.bare yes.bare no.bare .nowhere
  | .assign op target e _ => .assign op target.bare e.bare .nowhere
  | .sequence es _ => .sequence (bareExprs es) .nowhere

/-- Expressions without places. -/
def bareExprs : List Expr → List Expr
  | [] => []
  | e :: more => e.bare :: bareExprs more

/-- Elements or arguments without places. -/
def bareItems : List Item → List Item
  | [] => []
  | .expr e :: more => .expr e.bare :: bareItems more
  | .spread e :: more => .spread e.bare :: bareItems more
  | .hole :: more => .hole :: bareItems more

/-- A key without places. -/
def Key.bare : Key → Key
  | .name id => .name id.bare
  | .literal lit => .literal lit
  | .computed e => .computed e.bare

/-- The entries of an object without places. -/
def bareProperties : List Property → List Property
  | [] => []
  | .init k e shorthand _ :: more => .init k.bare e.bare shorthand .nowhere :: bareProperties more
  | .spread e :: more => .spread e.bare :: bareProperties more

/-- The body of an arrow function without places. -/
def ArrowBody.bare : ArrowBody → ArrowBody
  | .expr e => .expr e.bare
  | .block b => .block b.bare

/-- A function with its keyword, without places. -/
def FunctionDef.bare : FunctionDef → FunctionDef
  | .mk name ps body _ => .mk (name.map Ident.bare) (barePatterns ps) body.bare .nowhere

/-- A pattern without places. -/
def Pattern.bare : Pattern → Pattern
  | .ident id => .ident id.bare
  | .array elements _ => .array (barePatterns elements) .nowhere
  | .object props _ => .object (barePatternProps props) .nowhere
  | .assign target default => .assign target.bare default.bare
  | .rest target => .rest target.bare
  | .member e => .member e.bare
  | .hole => .hole

/-- Patterns without places. -/
def barePatterns : List Pattern → List Pattern
  | [] => []
  | p :: more => p.bare :: barePatterns more

/-- The entries of an object pattern without places. -/
def barePatternProps : List PatternProp → List PatternProp
  | [] => []
  | .init k target shorthand :: more => .init k.bare target.bare shorthand :: barePatternProps more
  | .rest target :: more => .rest target.bare :: barePatternProps more

/-- A statement without places. -/
def Stmt.bare : Stmt → Stmt
  | .expr e _ => .expr e.bare .nowhere
  | .declare d _ => .declare d.bare .nowhere
  | .return e _ => .return (bareOption e) .nowhere
  | .cond test yes none _ => .cond test.bare yes.bare none .nowhere
  | .cond test yes (some no) _ => .cond test.bare yes.bare (some no.bare) .nowhere
  | .while test body _ => .while test.bare body.bare .nowhere
  | .doWhile body test _ => .doWhile body.bare test.bare .nowhere
  | .for init test update body _ =>
    .for init.bare (bareOption test) (bareOption update) body.bare .nowhere
  | .block b => .block b.bare
  | .break _ => .break .nowhere
  | .continue _ => .continue .nowhere
  | .debugger _ => .debugger .nowhere
  | .empty _ => .empty .nowhere
  | .function fn => .function fn.bare

/-- An expression that may be left out, without places. -/
def bareOption : Option Expr → Option Expr
  | none => none
  | some e => some e.bare

/-- Statements between braces without places. -/
def Block.bare : Block → Block
  | .mk stmts _ => .mk (bareStmts stmts) .nowhere

/-- Statements without places. -/
def bareStmts : List Stmt → List Stmt
  | [] => []
  | s :: more => s.bare :: bareStmts more

/-- A declaration without places. -/
def VarDecl.bare : VarDecl → VarDecl
  | .mk kind ds _ => .mk kind (bareDeclarators ds) .nowhere

/-- Declarators without places. -/
def bareDeclarators : List Declarator → List Declarator
  | [] => []
  | .mk target init _ :: more => .mk target.bare (bareOption init) .nowhere :: bareDeclarators more

/-- The first clause of a `for` statement without places. -/
def ForInit.bare : ForInit → ForInit
  | .absent => .absent
  | .declare d => .declare d.bare
  | .expr e => .expr e.bare

end

-- How a tree without places is made of its parts: with these, trees that were read are compared part by part.
attribute [simp] Expr.bare bareExprs bareItems Key.bare bareProperties ArrowBody.bare FunctionDef.bare Pattern.bare
  barePatterns barePatternProps Stmt.bare bareOption Block.bare bareStmts VarDecl.bare bareDeclarators ForInit.bare

end FieldScript
