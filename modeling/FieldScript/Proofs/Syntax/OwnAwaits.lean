import FieldScript.Proofs.Syntax.Nodes

/-!
# The awaits of a function

An `await` belongs to the innermost function around it. So a tree has awaits *of its own*: the ones that do
not stand inside a function of the tree.
-/

namespace FieldScript.OwnAwait

mutual

/-- Whether an expression has an `await` of its own. -/
def ofExpr : Expr → Bool
  | .literal _ _ => false
  | .template _ es _ => ofExprs es
  | .array es _ => ofItems es
  | .object ps _ => ofProperties ps
  | .identifier _ _ => false
  | .member o k _ _ => ofExpr o || ofKey k
  | .call callee args _ _ => ofExpr callee || ofItems args
  | .arrow _ _ _ _ => false
  | .function _ => false
  | .this _ => false
  | .await _ _ => true
  | .unary _ e _ => ofExpr e
  | .update _ _ target _ => ofPattern target
  | .binary _ l r _ => ofExpr l || ofExpr r
  | .logical _ l r _ => ofExpr l || ofExpr r
  | .conditional test yes no _ => ofExpr test || (ofExpr yes || ofExpr no)
  | .assign _ target e _ => ofPattern target || ofExpr e
  | .sequence es _ => ofExprs es

/-- Whether one of several expressions has. -/
def ofExprs : List Expr → Bool
  | [] => false
  | e :: more => ofExpr e || ofExprs more

/-- Whether an element or argument has. -/
def ofItems : List Item → Bool
  | [] => false
  | .expr e :: more => ofExpr e || ofItems more
  | .spread e :: more => ofExpr e || ofItems more
  | .hole :: more => ofItems more

/-- Whether a key has. -/
def ofKey : Key → Bool
  | .name _ => false
  | .literal _ => false
  | .computed e => ofExpr e

/-- Whether an entry of an object has. -/
def ofProperties : List Property → Bool
  | [] => false
  | .init k e _ _ :: more => ofKey k || (ofExpr e || ofProperties more)
  | .spread e :: more => ofExpr e || ofProperties more

/-- Whether a pattern has. -/
def ofPattern : Pattern → Bool
  | .ident _ => false
  | .array elements _ => ofPatterns elements
  | .object props _ => ofPatternProps props
  | .assign target default => ofPattern target || ofExpr default
  | .rest target => ofPattern target
  | .member e => ofExpr e
  | .hole => false

/-- Whether one of several patterns has. -/
def ofPatterns : List Pattern → Bool
  | [] => false
  | p :: more => ofPattern p || ofPatterns more

/-- Whether an entry of an object pattern has. -/
def ofPatternProps : List PatternProp → Bool
  | [] => false
  | .init k target _ :: more => ofKey k || (ofPattern target || ofPatternProps more)
  | .rest target :: more => ofPattern target || ofPatternProps more

/-- Whether a statement has. -/
def ofStmt : Stmt → Bool
  | .expr e _ => ofExpr e
  | .declare (.mk _ ds _) _ => ofDeclarators ds
  | .return e _ => ofOption e
  | .cond test yes no _ => ofExpr test || (ofStmt yes || (match no with
      | none => false
      | some no => ofStmt no))
  | .while test body _ => ofExpr test || ofStmt body
  | .doWhile body test _ => ofStmt body || ofExpr test
  | .for init test update body _ => ofForInit init || (ofOption test || (ofOption update || ofStmt body))
  | .block b => ofBlock b
  | .break _ => false
  | .continue _ => false
  | .debugger _ => false
  | .empty _ => false
  | .function _ => false

/-- Whether an expression that may be left out has. -/
def ofOption : Option Expr → Bool
  | none => false
  | some e => ofExpr e

/-- Whether a statement between braces has. -/
def ofBlock : Block → Bool
  | .mk stmts _ => ofStmts stmts

/-- Whether one of several statements has. -/
def ofStmts : List Stmt → Bool
  | [] => false
  | s :: more => ofStmt s || ofStmts more

/-- Whether a declarator has. -/
def ofDeclarators : List Declarator → Bool
  | [] => false
  | .mk target init _ :: more => ofPattern target || (ofOption init || ofDeclarators more)

/-- Whether the first clause of a `for` statement has. -/
def ofForInit : ForInit → Bool
  | .absent => false
  | .declare (.mk _ ds _) => ofDeclarators ds
  | .expr e => ofExpr e

end

/-- Whether the body of an arrow function has. -/
def ofArrowBody : ArrowBody → Bool
  | .expr e => ofExpr e
  | .block b => ofBlock b

attribute [simp] ofExpr ofExprs ofItems ofKey ofProperties ofPattern ofPatterns ofPatternProps ofStmt ofOption ofBlock
  ofStmts ofDeclarators ofForInit

theorem ofStmts_append (xs ys : List Stmt) : ofStmts (xs ++ ys) = (ofStmts xs || ofStmts ys) := by
  induction xs with
  | nil => rw [List.nil_append, ofStmts, Bool.false_or]
  | cons s more ih => rw [List.cons_append, ofStmts, ofStmts, ih, Bool.or_assoc]

theorem ofDeclarators_append (xs ys : List Declarator) :
    ofDeclarators (xs ++ ys) = (ofDeclarators xs || ofDeclarators ys) := by
  induction xs with
  | nil => rw [List.nil_append, ofDeclarators, Bool.false_or]
  | cons d more ih =>
      obtain ⟨target, init, span⟩ := d
      rw [List.cons_append, ofDeclarators, ofDeclarators, ih, Bool.or_assoc, Bool.or_assoc]

/-- Statements that all have one have one, if there are any. -/
theorem ofStmts_of_forall {ss : List Stmt} (h : ∀ s ∈ ss, ofStmt s = true) (hne : ss ≠ []) :
    ofStmts ss = true := by
  cases ss with
  | nil => exact absurd rfl hne
  | cons s more => rw [ofStmts, h s List.mem_cons_self, Bool.true_or]

end FieldScript.OwnAwait
