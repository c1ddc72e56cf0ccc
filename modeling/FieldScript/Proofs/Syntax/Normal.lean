import FieldScript.Proofs.Syntax.Nodes

/-!
# Normal forms

Two kinds of trees are written in two ways. An arrow function whose body is a bare access or call also has a form with
braces, in which it is returned, and a branch or the body of a loop can stand with or without braces. The normal form of
a tree has braces in both cases, and is the same tree otherwise. (A declaration has the place of its statement, and a
declaration of nothing, which no text is read as, is left out.)

* `Expr.normal` and its companions.
* `Expr.immediate_normal`: where nothing waits, nothing waits in the normal form.
-/

namespace FieldScript

/-- What has become of a branch or of the body of a loop, in braces. -/
def Stmt.braced : Stmt → List Stmt → Stmt
  | .block _, [s] => s
  | branch, stmts => .block (.mk stmts branch.span)

mutual

/-- The normal form of an expression. -/
def Expr.normal : Expr → Expr
  | .literal lit span => .literal lit span
  | .template parts es span => .template parts (normalExprs es) span
  | .array items span => .array (normalItems items) span
  | .object props span => .object (normalProperties props) span
  | .identifier name span => .identifier name span
  | .member o k optional span => .member o.normal k.normal optional span
  | .call callee args optional span => .call callee.normal (normalItems args) optional span
  | .arrow ps body isAsync span => .arrow (normalPatterns ps) (body.normal span) isAsync span
  | .function fn => .function fn
  | .this span => .this span
  | .await e span => .await e.normal span
  | .unary op e span => .unary op e.normal span
  | .update op before target span => .update op before target.normal span
  | .binary op l r span => .binary op l.normal r.normal span
  | .logical op l r span => .logical op l.normal r.normal span
  | .conditional test yes no span => .conditional test.normal yes.normal no.normal span
  | .assign op target e span => .assign op target.normal e.normal span
  | .sequence es span => .sequence (normalExprs es) span

/-- The normal forms of expressions. -/
def normalExprs : List Expr → List Expr
  | [] => []
  | e :: more => e.normal :: normalExprs more

/-- The normal forms of elements or arguments. -/
def normalItems : List Item → List Item
  | [] => []
  | .expr e :: more => .expr e.normal :: normalItems more
  | .spread e :: more => .spread e.normal :: normalItems more
  | .hole :: more => .hole :: normalItems more

/-- The normal form of a key. -/
def Key.normal : Key → Key
  | .name id => .name id
  | .literal lit => .literal lit
  | .computed e => .computed e.normal

/-- The normal forms of the entries of an object. -/
def normalProperties : List Property → List Property
  | [] => []
  | .init k e shorthand span :: more => .init k.normal e.normal shorthand span :: normalProperties more
  | .spread e :: more => .spread e.normal :: normalProperties more

/-- The normal form of the body of an arrow function that spans `span`. -/
def ArrowBody.normal (span : Span) : ArrowBody → ArrowBody
  | .expr e => if e.isMemberOrCall then .block (.mk [.return (some e.normal) e.span] span) else .expr e.normal
  | .block b => .block b.normal

/-- The normal form of a pattern. -/
def Pattern.normal : Pattern → Pattern
  | .ident id => .ident id
  | .array elements span => .array (normalPatterns elements) span
  | .object props span => .object (normalPatternProps props) span
  | .assign target default => .assign target.normal default.normal
  | .rest target => .rest target.normal
  | .member e => .member e.normal
  | .hole => .hole

/-- The normal forms of patterns. -/
def normalPatterns : List Pattern → List Pattern
  | [] => []
  | p :: more => p.normal :: normalPatterns more

/-- The normal forms of the entries of an object pattern. -/
def normalPatternProps : List PatternProp → List PatternProp
  | [] => []
  | .init k target shorthand :: more => .init k.normal target.normal shorthand :: normalPatternProps more
  | .rest target :: more => .rest target.normal :: normalPatternProps more

/-- The normal form of a statement: one statement, or none if it declares nothing. -/
def Stmt.normal : Stmt → List Stmt
  | .expr e span => [.expr e.normal span]
  | .declare (.mk kind ds _) span =>
    if ds.isEmpty then [] else [.declare (.mk kind (normalDeclarators ds) span) span]
  | .return e span => [.return (normalOption e) span]
  | .cond test yes no span =>
    [.cond test.normal (yes.braced yes.normal)
      (match no with
        | none => none
        | some no => some (no.braced no.normal)) span]
  | .while test body span => [.while test.normal (body.braced body.normal) span]
  | .doWhile body test span => [.doWhile (body.braced body.normal) test.normal span]
  | .for init test update body span =>
    [.for init.normal (normalOption test) (normalOption update) (body.braced body.normal) span]
  | .block b => [.block b.normal]
  | .break span => [.break span]
  | .continue span => [.continue span]
  | .debugger span => [.debugger span]
  | .empty span => [.empty span]
  | .function fn => [.function fn]

/-- The normal form of an expression that may be left out. -/
def normalOption : Option Expr → Option Expr
  | none => none
  | some e => some e.normal

/-- The normal form of statements between braces. -/
def Block.normal : Block → Block
  | .mk stmts span => .mk (normalStmts stmts) span

/-- The normal forms of statements. -/
def normalStmts : List Stmt → List Stmt
  | [] => []
  | s :: more => s.normal ++ normalStmts more

/-- The normal forms of declarators. -/
def normalDeclarators : List Declarator → List Declarator
  | [] => []
  | .mk target init span :: more => .mk target.normal (normalOption init) span :: normalDeclarators more

/-- The normal form of the first clause of a `for` statement. -/
def ForInit.normal : ForInit → ForInit
  | .absent => .absent
  | .declare (.mk kind ds span) => .declare (.mk kind (normalDeclarators ds) span)
  | .expr e => .expr e.normal

end

@[simp] theorem Expr.span_normal (e : Expr) : e.normal.span = e.span := by
  cases e <;> rfl

mutual

/-- A pattern in normal form introduces the same names. -/
@[simp] theorem Pattern.boundNames_normal (p : Pattern) : p.normal.boundNames = p.boundNames := by
  match p with
  | .ident _ | .member _ | .hole => rfl
  | .array elements _ => exact boundNamesOf_normal elements
  | .object props _ => exact boundNamesOfProps_normal props
  | .assign target _ => exact target.boundNames_normal
  | .rest target => exact target.boundNames_normal

@[simp] theorem Pattern.boundNamesOf_normal (ps : List Pattern) :
    boundNamesOf (normalPatterns ps) = boundNamesOf ps := by
  match ps with
  | [] => rfl
  | p :: more =>
      show p.normal.boundNames ++ boundNamesOf (normalPatterns more) = _
      rw [p.boundNames_normal, boundNamesOf_normal more]
      rfl

theorem Pattern.boundNamesOfProps_normal (props : List PatternProp) :
    boundNamesOfProps (normalPatternProps props) = boundNamesOfProps props := by
  match props with
  | [] => rfl
  | .init _ target _ :: more =>
      show target.normal.boundNames ++ boundNamesOfProps (normalPatternProps more) = _
      rw [target.boundNames_normal, boundNamesOfProps_normal more]
      rfl
  | .rest target :: more =>
      show target.normal.boundNames ++ boundNamesOfProps (normalPatternProps more) = _
      rw [target.boundNames_normal, boundNamesOfProps_normal more]
      rfl

end

/-! ## Trees in which nothing waits -/

/-- A node that is no `await`, no function with its keyword, and no arrow function marked as asynchronous. -/
def Node.isImmediate : Node → Bool
  | .expr (.arrow _ _ isAsync _) => !isAsync
  | .expr (.await _ _) | .expr (.function _) => false
  | _ => true

/-- All nodes are such nodes. -/
def Immediate (ns : List Node) : Prop := ∀ n ∈ ns, n.isImmediate = true

namespace Immediate

variable {n : Node} {ns ns' : List Node}

theorem nil : Immediate [] := List.forall_mem_nil _

theorem node (hn : n.isImmediate = true) (h : Immediate ns) : Immediate (n :: ns) := List.forall_mem_cons.2 ⟨hn, h⟩

theorem append (h : Immediate ns) (h' : Immediate ns') : Immediate (ns ++ ns') := List.forall_mem_append.2 ⟨h, h'⟩

theorem head (h : Immediate (n :: ns)) : n.isImmediate = true := (List.forall_mem_cons.1 h).1

theorem below (h : Immediate (n :: ns)) : Immediate ns := (List.forall_mem_cons.1 h).2

theorem parts (h : Immediate (ns ++ ns')) : Immediate ns ∧ Immediate ns' := List.forall_mem_append.1 h

theorem left (h : Immediate (ns ++ ns')) : Immediate ns := h.parts.1

theorem right (h : Immediate (ns ++ ns')) : Immediate ns' := h.parts.2

theorem single {s : Stmt} (h : Immediate (Node.ofStmt s)) : Immediate (Node.ofStmts [s]) := h.append nil

end Immediate

theorem Stmt.immediate_braced (branch : Stmt) {stmts : List Stmt} (h : Immediate (Node.ofStmts stmts)) :
    Immediate (Node.ofStmt (branch.braced stmts)) := by
  unfold braced
  split
  · exact h.left
  · exact .node rfl h

mutual

/-- Nothing waits in a normal form if nothing waits in the tree. -/
theorem Expr.immediate_normal (e : Expr) (h : Immediate (Node.ofExpr e)) : Immediate (Node.ofExpr e.normal) := by
  cases e with
  | literal _ _ | identifier _ _ | function _ | this _ => exact h
  | template parts es span => exact .node rfl (immediate_normalExprs es h.below)
  | array items span => exact .node rfl (immediate_normalItems items h.below)
  | object props span => exact .node rfl (immediate_normalProperties props h.below)
  | member o k optional span =>
      exact .node rfl (.append (o.immediate_normal h.below.left) (k.immediate_normal h.below.right))
  | call callee args optional span =>
      exact .node rfl (.append (callee.immediate_normal h.below.left) (immediate_normalItems args h.below.right))
  | arrow ps body isAsync span =>
      have hasync : isAsync = false := by simpa [Node.isImmediate] using h.head
      exact .node (by rw [hasync]; rfl)
        (.append (immediate_normalPatterns ps h.below.left) (body.immediate_normal span h.below.right))
  | await e span => cases h.head
  | unary op e span => exact .node rfl (e.immediate_normal h.below)
  | update op before target span => exact .node rfl (target.immediate_normal h.below)
  | binary op l r span | logical op l r span =>
      exact .node rfl (.append (l.immediate_normal h.below.left) (r.immediate_normal h.below.right))
  | conditional test yes no span =>
      exact .node rfl (.append (test.immediate_normal h.below.left)
        (.append (yes.immediate_normal h.below.right.left) (no.immediate_normal h.below.right.right)))
  | assign op target e span =>
      exact .node rfl (.append (target.immediate_normal h.below.left) (e.immediate_normal h.below.right))
  | sequence es span => exact .node rfl (immediate_normalExprs es h.below)

theorem immediate_normalExprs (es : List Expr) (h : Immediate (Node.ofExprs es)) :
    Immediate (Node.ofExprs (normalExprs es)) := by
  match es with
  | [] => exact h
  | e :: more => exact .append (e.immediate_normal h.left) (immediate_normalExprs more h.right)

theorem immediate_normalItems (items : List Item) (h : Immediate (Node.ofItems items)) :
    Immediate (Node.ofItems (normalItems items)) := by
  match items with
  | [] => exact h
  | .expr e :: more | .spread e :: more =>
      exact .append (e.immediate_normal h.left) (immediate_normalItems more h.right)
  | .hole :: more => exact immediate_normalItems more h

theorem Key.immediate_normal (k : Key) (h : Immediate (Node.ofKey k)) : Immediate (Node.ofKey k.normal) := by
  match k with
  | .name _ | .literal _ => exact h
  | .computed e => exact e.immediate_normal h

theorem immediate_normalProperties (props : List Property) (h : Immediate (Node.ofProperties props)) :
    Immediate (Node.ofProperties (normalProperties props)) := by
  match props with
  | [] => exact h
  | .init k e shorthand span :: more =>
      exact .append (k.immediate_normal h.left)
        (.append (e.immediate_normal h.right.left) (immediate_normalProperties more h.right.right))
  | .spread e :: more => exact .append (e.immediate_normal h.left) (immediate_normalProperties more h.right)

theorem ArrowBody.immediate_normal (span : Span) (body : ArrowBody) (h : Immediate (Node.ofArrowBody body)) :
    Immediate (Node.ofArrowBody (body.normal span)) := by
  match body with
  | .expr e =>
      unfold ArrowBody.normal
      split
      · exact .append (.node rfl (e.immediate_normal h)) .nil
      · exact e.immediate_normal h
  | .block b => exact b.immediate_normal h

theorem Pattern.immediate_normal (p : Pattern) (h : Immediate (Node.ofPattern p)) :
    Immediate (Node.ofPattern p.normal) := by
  match p with
  | .ident _ | .hole => exact h
  | .array elements span => exact .node rfl (immediate_normalPatterns elements h.below)
  | .object props span => exact .node rfl (immediate_normalPatternProps props h.below)
  | .assign target default =>
      exact .node rfl (.append (target.immediate_normal h.below.left) (default.immediate_normal h.below.right))
  | .rest target => exact .node rfl (target.immediate_normal h.below)
  | .member e => exact .node rfl (e.immediate_normal h.below)

theorem immediate_normalPatterns (ps : List Pattern) (h : Immediate (Node.ofPatterns ps)) :
    Immediate (Node.ofPatterns (normalPatterns ps)) := by
  match ps with
  | [] => exact h
  | p :: more => exact .append (p.immediate_normal h.left) (immediate_normalPatterns more h.right)

theorem immediate_normalPatternProps (props : List PatternProp) (h : Immediate (Node.ofPatternProps props)) :
    Immediate (Node.ofPatternProps (normalPatternProps props)) := by
  match props with
  | [] => exact h
  | .init k target shorthand :: more =>
      exact .append (k.immediate_normal h.left)
        (.append (target.immediate_normal h.right.left) (immediate_normalPatternProps more h.right.right))
  | .rest target :: more =>
      exact .append (target.immediate_normal h.left) (immediate_normalPatternProps more h.right)

theorem Stmt.immediate_normal (s : Stmt) (h : Immediate (Node.ofStmt s)) : Immediate (Node.ofStmts s.normal) := by
  match s with
  | .expr e span => exact .single (.node rfl (e.immediate_normal h.below))
  | .declare (.mk kind ds dspan) span =>
      unfold Stmt.normal
      split
      · exact .nil
      · exact .single (.node rfl (immediate_normalDeclarators ds h.below))
  | .return e span => exact .single (.node rfl (immediate_normalOption e h.below))
  | .cond test yes none span =>
      exact .single (.node rfl (.append (test.immediate_normal h.below.left)
        (.append (yes.immediate_braced (yes.immediate_normal h.below.right.left)) .nil)))
  | .cond test yes (some no) span =>
      exact .single (.node rfl (.append (test.immediate_normal h.below.left)
        (.append (yes.immediate_braced (yes.immediate_normal h.below.right.left))
          (no.immediate_braced (no.immediate_normal h.below.right.right)))))
  | .while test body span =>
      exact .single (.node rfl (.append (test.immediate_normal h.below.left)
        (body.immediate_braced (body.immediate_normal h.below.right))))
  | .doWhile body test span =>
      exact .single (.node rfl (.append (body.immediate_braced (body.immediate_normal h.below.left))
        (test.immediate_normal h.below.right)))
  | .for init test update body span =>
      have hrest := h.below.right
      exact .single (.node rfl (.append (init.immediate_normal h.below.left)
        (.append (immediate_normalOption test hrest.left) (.append (immediate_normalOption update hrest.right.left)
          (body.immediate_braced (body.immediate_normal hrest.right.right))))))
  | .block b => exact .single (.node rfl (b.immediate_normal h.below))
  | .break _ | .continue _ | .debugger _ | .empty _ | .function _ => exact .single h

theorem immediate_normalOption (e? : Option Expr) (h : Immediate (Node.ofOption e?)) :
    Immediate (Node.ofOption (normalOption e?)) := by
  match e? with
  | none => exact h
  | some e => exact e.immediate_normal h

theorem Block.immediate_normal (b : Block) (h : Immediate (Node.ofBlock b)) : Immediate (Node.ofBlock b.normal) := by
  match b with
  | .mk stmts span => exact immediate_normalStmts stmts h

theorem immediate_normalStmts (stmts : List Stmt) (h : Immediate (Node.ofStmts stmts)) :
    Immediate (Node.ofStmts (normalStmts stmts)) := by
  match stmts with
  | [] => exact h
  | s :: more =>
      rw [normalStmts, Node.ofStmts_append]
      exact .append (s.immediate_normal h.left) (immediate_normalStmts more h.right)

theorem immediate_normalDeclarators (ds : List Declarator) (h : Immediate (Node.ofDeclarators ds)) :
    Immediate (Node.ofDeclarators (normalDeclarators ds)) := by
  match ds with
  | [] => exact h
  | .mk target init span :: more =>
      exact .append (target.immediate_normal h.left)
        (.append (immediate_normalOption init h.right.left) (immediate_normalDeclarators more h.right.right))

theorem ForInit.immediate_normal (init : ForInit) (h : Immediate (Node.ofForInit init)) :
    Immediate (Node.ofForInit init.normal) := by
  match init with
  | .absent => exact h
  | .declare (.mk kind ds span) => exact immediate_normalDeclarators ds h
  | .expr e => exact e.immediate_normal h

end

end FieldScript
