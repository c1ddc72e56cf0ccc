import FieldScript.Proofs.Syntax.Bare
import FieldScript.Proofs.Syntax.Nodes

/-!
# Dotted accesses

How many accesses with a point a tree holds. Reading a tree takes as many points as that, and places do not matter
(`dotted_block_bare`), so that this number tells whether a text has lost a point on the way.
-/

namespace FieldScript

/-- An access with a point in front of its name. -/
def Node.isDotted : Node → Bool
  | .expr (.member _ (.name _) false _) => true
  | _ => false

/-- The number of accesses with a point. -/
def dotted (ns : List Node) : Nat := ns.countP Node.isDotted

@[simp] theorem dotted_nil : dotted [] = 0 := rfl

@[simp] theorem dotted_cons (n : Node) (ns : List Node) : dotted (n :: ns) = n.isDotted.toNat + dotted ns := by
  simp only [dotted, List.countP_cons]
  cases n.isDotted <;> simp <;> omega

@[simp] theorem dotted_append (ns ns' : List Node) : dotted (ns ++ ns') = dotted ns + dotted ns' :=
  List.countP_append

open Node

/-- A key that is a word. -/
def Key.isName : Key → Bool
  | .name _ => true
  | _ => false

@[simp] theorem isDotted_member (o : Expr) (k : Key) (optional : Bool) (span : Span) :
    (Node.expr (.member o k optional span)).isDotted = (k.isName && !optional) := by
  cases k <;> cases optional <;> rfl

theorem dotted_congr {n n' : Node} {ns ns' : List Node} (hn : n.isDotted = n'.isDotted) (h : dotted ns = dotted ns') :
    dotted (n :: ns) = dotted (n' :: ns') := by
  rw [dotted_cons, dotted_cons, hn, h]

theorem dotted_append_congr {ns₁ ns₁' ns₂ ns₂' : List Node} (h₁ : dotted ns₁ = dotted ns₁')
    (h₂ : dotted ns₂ = dotted ns₂') : dotted (ns₁ ++ ns₂) = dotted (ns₁' ++ ns₂') := by
  rw [dotted_append, dotted_append, h₁, h₂]

/-! ## Places do not matter -/

theorem isName_bare (k : Key) : k.bare.isName = k.isName := by
  cases k <;> rfl

mutual

theorem dotted_expr_bare (e : Expr) : dotted (ofExpr e.bare) = dotted (ofExpr e) := by
  match e with
  | .literal _ _ => rfl
  | .identifier _ _ => rfl
  | .this _ => rfl
  | .template _ es _ => exact dotted_congr rfl (dotted_exprs_bare es)
  | .array es _ => exact dotted_congr rfl (dotted_items_bare es)
  | .object ps _ => exact dotted_congr rfl (dotted_properties_bare ps)
  | .member o k optional _ =>
      refine dotted_congr ?_ (dotted_append_congr (dotted_expr_bare o) (dotted_key_bare k))
      rw [isDotted_member, isDotted_member, isName_bare]
  | .call callee args _ _ =>
      exact dotted_congr rfl (dotted_append_congr (dotted_expr_bare callee) (dotted_items_bare args))
  | .arrow ps body _ _ =>
      exact dotted_congr rfl (dotted_append_congr (dotted_patterns_bare ps) (dotted_arrowBody_bare body))
  | .function fn => exact dotted_congr rfl (dotted_function_bare fn)
  | .await e _ => exact dotted_congr rfl (dotted_expr_bare e)
  | .unary _ e _ => exact dotted_congr rfl (dotted_expr_bare e)
  | .update _ _ p _ => exact dotted_congr rfl (dotted_pattern_bare p)
  | .binary _ l r _ => exact dotted_congr rfl (dotted_append_congr (dotted_expr_bare l) (dotted_expr_bare r))
  | .logical _ l r _ => exact dotted_congr rfl (dotted_append_congr (dotted_expr_bare l) (dotted_expr_bare r))
  | .conditional test yes no _ =>
      exact dotted_congr rfl (dotted_append_congr (dotted_expr_bare test)
        (dotted_append_congr (dotted_expr_bare yes) (dotted_expr_bare no)))
  | .assign _ p e _ => exact dotted_congr rfl (dotted_append_congr (dotted_pattern_bare p) (dotted_expr_bare e))
  | .sequence es _ => exact dotted_congr rfl (dotted_exprs_bare es)

theorem dotted_exprs_bare (es : List Expr) : dotted (ofExprs (bareExprs es)) = dotted (ofExprs es) := by
  match es with
  | [] => rfl
  | e :: more => exact dotted_append_congr (dotted_expr_bare e) (dotted_exprs_bare more)

theorem dotted_items_bare (es : List Item) : dotted (ofItems (bareItems es)) = dotted (ofItems es) := by
  match es with
  | [] => rfl
  | .expr e :: more => exact dotted_append_congr (dotted_expr_bare e) (dotted_items_bare more)
  | .spread e :: more => exact dotted_append_congr (dotted_expr_bare e) (dotted_items_bare more)
  | .hole :: more => exact dotted_items_bare more

theorem dotted_key_bare (k : Key) : dotted (ofKey k.bare) = dotted (ofKey k) := by
  match k with
  | .name _ => rfl
  | .literal _ => rfl
  | .computed e => exact dotted_expr_bare e

theorem dotted_properties_bare (ps : List Property) :
    dotted (ofProperties (bareProperties ps)) = dotted (ofProperties ps) := by
  match ps with
  | [] => rfl
  | .init k e _ _ :: more =>
      exact dotted_append_congr (dotted_key_bare k)
        (dotted_append_congr (dotted_expr_bare e) (dotted_properties_bare more))
  | .spread e :: more => exact dotted_append_congr (dotted_expr_bare e) (dotted_properties_bare more)

theorem dotted_arrowBody_bare (body : ArrowBody) : dotted (ofArrowBody body.bare) = dotted (ofArrowBody body) := by
  match body with
  | .expr e => exact dotted_expr_bare e
  | .block b => exact dotted_block_bare b

theorem dotted_function_bare (fn : FunctionDef) : dotted (ofFunction fn.bare) = dotted (ofFunction fn) := by
  match fn with
  | .mk _ ps body _ => exact dotted_append_congr (dotted_patterns_bare ps) (dotted_block_bare body)

theorem dotted_pattern_bare (p : Pattern) : dotted (ofPattern p.bare) = dotted (ofPattern p) := by
  match p with
  | .ident _ => rfl
  | .array elements _ => exact dotted_congr rfl (dotted_patterns_bare elements)
  | .object props _ => exact dotted_congr rfl (dotted_patternProps_bare props)
  | .assign target default =>
      exact dotted_congr rfl (dotted_append_congr (dotted_pattern_bare target) (dotted_expr_bare default))
  | .rest target => exact dotted_congr rfl (dotted_pattern_bare target)
  | .member e => exact dotted_congr rfl (dotted_expr_bare e)
  | .hole => rfl

theorem dotted_patterns_bare (ps : List Pattern) : dotted (ofPatterns (barePatterns ps)) = dotted (ofPatterns ps) := by
  match ps with
  | [] => rfl
  | p :: more => exact dotted_append_congr (dotted_pattern_bare p) (dotted_patterns_bare more)

theorem dotted_patternProps_bare (ps : List PatternProp) :
    dotted (ofPatternProps (barePatternProps ps)) = dotted (ofPatternProps ps) := by
  match ps with
  | [] => rfl
  | .init k p _ :: more =>
      exact dotted_append_congr (dotted_key_bare k)
        (dotted_append_congr (dotted_pattern_bare p) (dotted_patternProps_bare more))
  | .rest p :: more => exact dotted_append_congr (dotted_pattern_bare p) (dotted_patternProps_bare more)

theorem dotted_stmt_bare (s : Stmt) : dotted (ofStmt s.bare) = dotted (ofStmt s) := by
  match s with
  | .expr e _ => exact dotted_congr rfl (dotted_expr_bare e)
  | .declare d _ => exact dotted_congr rfl (dotted_varDecl_bare d)
  | .return e _ => exact dotted_congr rfl (dotted_option_bare e)
  | .cond test yes none _ =>
      exact dotted_congr rfl (dotted_append_congr (dotted_expr_bare test)
        (dotted_append_congr (dotted_stmt_bare yes) rfl))
  | .cond test yes (some no) _ =>
      exact dotted_congr rfl (dotted_append_congr (dotted_expr_bare test)
        (dotted_append_congr (dotted_stmt_bare yes) (dotted_stmt_bare no)))
  | .while test body _ =>
      exact dotted_congr rfl (dotted_append_congr (dotted_expr_bare test) (dotted_stmt_bare body))
  | .doWhile body test _ =>
      exact dotted_congr rfl (dotted_append_congr (dotted_stmt_bare body) (dotted_expr_bare test))
  | .for init test update body _ =>
      exact dotted_congr rfl (dotted_append_congr (dotted_forInit_bare init) (dotted_append_congr
        (dotted_option_bare test) (dotted_append_congr (dotted_option_bare update) (dotted_stmt_bare body))))
  | .block b => exact dotted_congr rfl (dotted_block_bare b)
  | .break _ => rfl
  | .continue _ => rfl
  | .debugger _ => rfl
  | .empty _ => rfl
  | .function fn => exact dotted_congr rfl (dotted_function_bare fn)

theorem dotted_option_bare (e : Option Expr) : dotted (ofOption (bareOption e)) = dotted (ofOption e) := by
  match e with
  | none => rfl
  | some e => exact dotted_expr_bare e

theorem dotted_block_bare (b : Block) : dotted (ofBlock b.bare) = dotted (ofBlock b) := by
  match b with
  | .mk stmts _ => exact dotted_stmts_bare stmts

theorem dotted_stmts_bare (ss : List Stmt) : dotted (ofStmts (bareStmts ss)) = dotted (ofStmts ss) := by
  match ss with
  | [] => rfl
  | s :: more => exact dotted_append_congr (dotted_stmt_bare s) (dotted_stmts_bare more)

theorem dotted_varDecl_bare (d : VarDecl) : dotted (ofVarDecl d.bare) = dotted (ofVarDecl d) := by
  match d with
  | .mk _ ds _ => exact dotted_declarators_bare ds

theorem dotted_declarators_bare (ds : List Declarator) :
    dotted (ofDeclarators (bareDeclarators ds)) = dotted (ofDeclarators ds) := by
  match ds with
  | [] => rfl
  | .mk p init _ :: more =>
      exact dotted_append_congr (dotted_pattern_bare p)
        (dotted_append_congr (dotted_option_bare init) (dotted_declarators_bare more))

theorem dotted_forInit_bare (init : ForInit) : dotted (ofForInit init.bare) = dotted (ofForInit init) := by
  match init with
  | .absent => rfl
  | .declare d => exact dotted_varDecl_bare d
  | .expr e => exact dotted_expr_bare e

end

end FieldScript
