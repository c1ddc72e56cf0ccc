import FieldScript.Syntax.Basic

/-!
# The nodes of a tree

All expressions, patterns and statements that a tree consists of, the tree itself included. A
condition on the shape of a body is a condition on each of its nodes.
-/

namespace FieldScript

/-- A part of a tree. -/
inductive Node where
  | expr (e : Expr)
  | pattern (p : Pattern)
  | stmt (s : Stmt)

namespace Node

mutual

/-- The nodes of an expression. -/
def ofExpr : Expr → List Node
  | .literal lit s => [.expr (.literal lit s)]
  | .template parts es s => .expr (.template parts es s) :: ofExprs es
  | .array items s => .expr (.array items s) :: ofItems items
  | .object props s => .expr (.object props s) :: ofProperties props
  | .identifier name s => [.expr (.identifier name s)]
  | .member o k optional s => .expr (.member o k optional s) :: (ofExpr o ++ ofKey k)
  | .call callee args optional s =>
    .expr (.call callee args optional s) :: (ofExpr callee ++ ofItems args)
  | .arrow ps body isAsync s =>
    .expr (.arrow ps body isAsync s) :: (ofPatterns ps ++ ofArrowBody body)
  | .function fn => .expr (.function fn) :: ofFunction fn
  | .this s => [.expr (.this s)]
  | .await e s => .expr (.await e s) :: ofExpr e
  | .unary op e s => .expr (.unary op e s) :: ofExpr e
  | .update op before target s => .expr (.update op before target s) :: ofPattern target
  | .binary op l r s => .expr (.binary op l r s) :: (ofExpr l ++ ofExpr r)
  | .logical op l r s => .expr (.logical op l r s) :: (ofExpr l ++ ofExpr r)
  | .conditional test yes no s =>
    .expr (.conditional test yes no s) :: (ofExpr test ++ (ofExpr yes ++ ofExpr no))
  | .assign op target e s => .expr (.assign op target e s) :: (ofPattern target ++ ofExpr e)
  | .sequence es s => .expr (.sequence es s) :: ofExprs es

/-- The nodes of expressions. -/
def ofExprs : List Expr → List Node
  | [] => []
  | e :: more => ofExpr e ++ ofExprs more

/-- The nodes of elements or arguments. -/
def ofItems : List Item → List Node
  | [] => []
  | .expr e :: more => ofExpr e ++ ofItems more
  | .spread e :: more => ofExpr e ++ ofItems more
  | .hole :: more => ofItems more

/-- The nodes of a key. -/
def ofKey : Key → List Node
  | .name _ => []
  | .literal _ => []
  | .computed e => ofExpr e

/-- The nodes of the entries of an object. -/
def ofProperties : List Property → List Node
  | [] => []
  | .init k e _ _ :: more => ofKey k ++ (ofExpr e ++ ofProperties more)
  | .spread e :: more => ofExpr e ++ ofProperties more

/-- The nodes of the body of an arrow function. -/
def ofArrowBody : ArrowBody → List Node
  | .expr e => ofExpr e
  | .block b => ofBlock b

/-- The nodes of a function with its keyword. -/
def ofFunction : FunctionDef → List Node
  | .mk _ ps body _ => ofPatterns ps ++ ofBlock body

/-- The nodes of a pattern. -/
def ofPattern : Pattern → List Node
  | .ident id => [.pattern (.ident id)]
  | .array elements s => .pattern (.array elements s) :: ofPatterns elements
  | .object props s => .pattern (.object props s) :: ofPatternProps props
  | .assign target default => .pattern (.assign target default) :: (ofPattern target ++ ofExpr default)
  | .rest target => .pattern (.rest target) :: ofPattern target
  | .member e => .pattern (.member e) :: ofExpr e
  | .hole => [.pattern .hole]

/-- The nodes of patterns. -/
def ofPatterns : List Pattern → List Node
  | [] => []
  | p :: more => ofPattern p ++ ofPatterns more

/-- The nodes of the entries of an object pattern. -/
def ofPatternProps : List PatternProp → List Node
  | [] => []
  | .init k target _ :: more => ofKey k ++ (ofPattern target ++ ofPatternProps more)
  | .rest target :: more => ofPattern target ++ ofPatternProps more

/-- The nodes of a statement. -/
def ofStmt : Stmt → List Node
  | .expr e s => .stmt (.expr e s) :: ofExpr e
  | .declare d s => .stmt (.declare d s) :: ofVarDecl d
  | .return e s => .stmt (.return e s) :: ofOption e
  | .cond test yes no s =>
    .stmt (.cond test yes no s) :: (ofExpr test ++ (ofStmt yes ++ (match no with
      | none => []
      | some no => ofStmt no)))
  | .while test body s => .stmt (.while test body s) :: (ofExpr test ++ ofStmt body)
  | .doWhile body test s => .stmt (.doWhile body test s) :: (ofStmt body ++ ofExpr test)
  | .for init test update body s =>
    .stmt (.for init test update body s) ::
      (ofForInit init ++ (ofOption test ++ (ofOption update ++ ofStmt body)))
  | .block b => .stmt (.block b) :: ofBlock b
  | .break s => [.stmt (.break s)]
  | .continue s => [.stmt (.continue s)]
  | .debugger s => [.stmt (.debugger s)]
  | .empty s => [.stmt (.empty s)]
  | .function fn => .stmt (.function fn) :: ofFunction fn

/-- The nodes of an expression that may be left out. -/
def ofOption : Option Expr → List Node
  | none => []
  | some e => ofExpr e

/-- The nodes of statements between braces. -/
def ofBlock : Block → List Node
  | .mk stmts _ => ofStmts stmts

/-- The nodes of statements. -/
def ofStmts : List Stmt → List Node
  | [] => []
  | s :: more => ofStmt s ++ ofStmts more

/-- The nodes of a declaration. -/
def ofVarDecl : VarDecl → List Node
  | .mk _ ds _ => ofDeclarators ds

/-- The nodes of declarators. -/
def ofDeclarators : List Declarator → List Node
  | [] => []
  | .mk target init _ :: more => ofPattern target ++ (ofOption init ++ ofDeclarators more)

/-- The nodes of the first clause of a `for` statement. -/
def ofForInit : ForInit → List Node
  | .absent => []
  | .declare d => ofVarDecl d
  | .expr e => ofExpr e

end

theorem ofStmts_append (xs ys : List Stmt) : ofStmts (xs ++ ys) = ofStmts xs ++ ofStmts ys := by
  induction xs with
  | nil => rfl
  | cons s more ih => rw [List.cons_append, ofStmts, ofStmts, ih, List.append_assoc]

theorem mem_ofStmts {n : Node} {ss : List Stmt} : n ∈ ofStmts ss ↔ ∃ s ∈ ss, n ∈ ofStmt s := by
  induction ss with
  | nil => simp [ofStmts]
  | cons s more ih => simp [ofStmts, ih]

theorem ofDeclarators_append (xs ys : List Declarator) :
    ofDeclarators (xs ++ ys) = ofDeclarators xs ++ ofDeclarators ys := by
  induction xs with
  | nil => rfl
  | cons d more ih =>
      obtain ⟨target, init, span⟩ := d
      rw [List.cons_append, ofDeclarators, ofDeclarators, ih, List.append_assoc, List.append_assoc]

end Node

/-- The nodes of an expression, itself included. -/
abbrev Expr.nodes (e : Expr) : List Node := Node.ofExpr e

end FieldScript
