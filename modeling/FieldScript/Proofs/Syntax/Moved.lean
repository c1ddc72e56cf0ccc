import FieldScript.Syntax.Parse.Pattern

/-!
# Trees at another place

A text that stands further behind in a longer one is read as the same tree with all places moved. Moving commutes with
everything that reading makes of places: the span of a tree, the span of two trees together, and the target that an
expression is read as.
-/

namespace FieldScript

/-- A span that starts and ends `d` bytes further behind. -/
def Span.moved (d : Nat) (s : Span) : Span := ⟨s.start + d, s.stop + d⟩

@[simp] theorem Span.moved_zero (s : Span) : s.moved 0 = s := rfl

@[simp] theorem Span.moved_start (d : Nat) (s : Span) : (s.moved d).start = s.start + d := rfl

@[simp] theorem Span.moved_stop (d : Nat) (s : Span) : (s.moved d).stop = s.stop + d := rfl

theorem Span.moved_merge (d : Nat) (a b : Span) : (a.merge b).moved d = (a.moved d).merge (b.moved d) := by
  simp only [Span.moved, Span.merge, Span.mk.injEq]
  omega

theorem Span.moved_point (d offset : Nat) : (Span.point offset).moved d = .point (offset + d) := rfl

/-- A name at another place. -/
def Ident.moved (d : Nat) (id : Ident) : Ident := ⟨id.name, id.span.moved d⟩

@[simp] theorem Ident.moved_zero (id : Ident) : id.moved 0 = id := rfl

mutual

/-- An expression at another place. -/
def Expr.moved (d : Nat) : Expr → Expr
  | .literal lit s => .literal lit (s.moved d)
  | .template parts es s => .template parts (movedExprs d es) (s.moved d)
  | .array items s => .array (movedItems d items) (s.moved d)
  | .object props s => .object (movedProperties d props) (s.moved d)
  | .identifier name s => .identifier name (s.moved d)
  | .member o k optional s => .member (o.moved d) (k.moved d) optional (s.moved d)
  | .call callee args optional s => .call (callee.moved d) (movedItems d args) optional (s.moved d)
  | .arrow ps body isAsync s => .arrow (movedPatterns d ps) (body.moved d) isAsync (s.moved d)
  | .function fn => .function (fn.moved d)
  | .this s => .this (s.moved d)
  | .await e s => .await (e.moved d) (s.moved d)
  | .unary op e s => .unary op (e.moved d) (s.moved d)
  | .update op before target s => .update op before (target.moved d) (s.moved d)
  | .binary op l r s => .binary op (l.moved d) (r.moved d) (s.moved d)
  | .logical op l r s => .logical op (l.moved d) (r.moved d) (s.moved d)
  | .conditional test yes no s => .conditional (test.moved d) (yes.moved d) (no.moved d) (s.moved d)
  | .assign op target e s => .assign op (target.moved d) (e.moved d) (s.moved d)
  | .sequence es s => .sequence (movedExprs d es) (s.moved d)

/-- Expressions at another place. -/
def movedExprs (d : Nat) : List Expr → List Expr
  | [] => []
  | e :: more => e.moved d :: movedExprs d more

/-- An element or argument at another place. -/
def Item.moved (d : Nat) : Item → Item
  | .expr e => .expr (e.moved d)
  | .spread e => .spread (e.moved d)
  | .hole => .hole

/-- Elements or arguments at another place. -/
def movedItems (d : Nat) : List Item → List Item
  | [] => []
  | i :: more => i.moved d :: movedItems d more

/-- A key at another place. -/
def Key.moved (d : Nat) : Key → Key
  | .name id => .name (id.moved d)
  | .literal lit => .literal lit
  | .computed e => .computed (e.moved d)

/-- An entry of an object at another place. -/
def Property.moved (d : Nat) : Property → Property
  | .init k e shorthand s => .init (k.moved d) (e.moved d) shorthand (s.moved d)
  | .spread e => .spread (e.moved d)

/-- The entries of an object at another place. -/
def movedProperties (d : Nat) : List Property → List Property
  | [] => []
  | p :: more => p.moved d :: movedProperties d more

/-- The body of an arrow function at another place. -/
def ArrowBody.moved (d : Nat) : ArrowBody → ArrowBody
  | .expr e => .expr (e.moved d)
  | .block b => .block (b.moved d)

/-- A function with its keyword, at another place. -/
def FunctionDef.moved (d : Nat) : FunctionDef → FunctionDef
  | .mk name ps body s => .mk (name.map (Ident.moved d)) (movedPatterns d ps) (body.moved d) (s.moved d)

/-- A pattern at another place. -/
def Pattern.moved (d : Nat) : Pattern → Pattern
  | .ident id => .ident (id.moved d)
  | .array elements s => .array (movedPatterns d elements) (s.moved d)
  | .object props s => .object (movedPatternProps d props) (s.moved d)
  | .assign target default => .assign (target.moved d) (default.moved d)
  | .rest target => .rest (target.moved d)
  | .member e => .member (e.moved d)
  | .hole => .hole

/-- Patterns at another place. -/
def movedPatterns (d : Nat) : List Pattern → List Pattern
  | [] => []
  | p :: more => p.moved d :: movedPatterns d more

/-- An entry of an object pattern at another place. -/
def PatternProp.moved (d : Nat) : PatternProp → PatternProp
  | .init k target shorthand => .init (k.moved d) (target.moved d) shorthand
  | .rest target => .rest (target.moved d)

/-- The entries of an object pattern at another place. -/
def movedPatternProps (d : Nat) : List PatternProp → List PatternProp
  | [] => []
  | p :: more => p.moved d :: movedPatternProps d more

/-- A statement at another place. -/
def Stmt.moved (d : Nat) : Stmt → Stmt
  | .expr e s => .expr (e.moved d) (s.moved d)
  | .declare decl s => .declare (decl.moved d) (s.moved d)
  | .return e s => .return (movedOption d e) (s.moved d)
  | .cond test yes none s => .cond (test.moved d) (yes.moved d) none (s.moved d)
  | .cond test yes (some no) s => .cond (test.moved d) (yes.moved d) (some (no.moved d)) (s.moved d)
  | .while test body s => .while (test.moved d) (body.moved d) (s.moved d)
  | .doWhile body test s => .doWhile (body.moved d) (test.moved d) (s.moved d)
  | .for init test update body s =>
    .for (init.moved d) (movedOption d test) (movedOption d update) (body.moved d) (s.moved d)
  | .block b => .block (b.moved d)
  | .break s => .break (s.moved d)
  | .continue s => .continue (s.moved d)
  | .debugger s => .debugger (s.moved d)
  | .empty s => .empty (s.moved d)
  | .function fn => .function (fn.moved d)

/-- An expression that may be left out, at another place. -/
def movedOption (d : Nat) : Option Expr → Option Expr
  | none => none
  | some e => some (e.moved d)

/-- Statements between braces at another place. -/
def Block.moved (d : Nat) : Block → Block
  | .mk stmts s => .mk (movedStmts d stmts) (s.moved d)

/-- Statements at another place. -/
def movedStmts (d : Nat) : List Stmt → List Stmt
  | [] => []
  | s :: more => s.moved d :: movedStmts d more

/-- A declaration at another place. -/
def VarDecl.moved (d : Nat) : VarDecl → VarDecl
  | .mk kind ds s => .mk kind (movedDeclarators d ds) (s.moved d)

/-- A declarator at another place. -/
def Declarator.moved (d : Nat) : Declarator → Declarator
  | .mk target init s => .mk (target.moved d) (movedOption d init) (s.moved d)

/-- Declarators at another place. -/
def movedDeclarators (d : Nat) : List Declarator → List Declarator
  | [] => []
  | x :: more => x.moved d :: movedDeclarators d more

/-- The first clause of a `for` statement at another place. -/
def ForInit.moved (d : Nat) : ForInit → ForInit
  | .absent => .absent
  | .declare decl => .declare (decl.moved d)
  | .expr e => .expr (e.moved d)

end

section Lists

variable (d : Nat)

theorem movedExprs_eq (es : List Expr) : movedExprs d es = es.map (Expr.moved d) := by
  induction es with
  | nil => rfl
  | cons e es ih => rw [movedExprs, ih, List.map_cons]

theorem movedItems_eq (is : List Item) : movedItems d is = is.map (Item.moved d) := by
  induction is with
  | nil => rfl
  | cons i is ih => rw [movedItems, ih, List.map_cons]

theorem movedProperties_eq (ps : List Property) : movedProperties d ps = ps.map (Property.moved d) := by
  induction ps with
  | nil => rfl
  | cons p ps ih => rw [movedProperties, ih, List.map_cons]

theorem movedPatterns_eq (ps : List Pattern) : movedPatterns d ps = ps.map (Pattern.moved d) := by
  induction ps with
  | nil => rfl
  | cons p ps ih => rw [movedPatterns, ih, List.map_cons]

theorem movedPatternProps_eq (ps : List PatternProp) : movedPatternProps d ps = ps.map (PatternProp.moved d) := by
  induction ps with
  | nil => rfl
  | cons p ps ih => rw [movedPatternProps, ih, List.map_cons]

theorem movedOption_eq (e : Option Expr) : movedOption d e = e.map (Expr.moved d) := by
  cases e <;> rfl

theorem movedStmts_eq (ss : List Stmt) : movedStmts d ss = ss.map (Stmt.moved d) := by
  induction ss with
  | nil => rfl
  | cons s ss ih => rw [movedStmts, ih, List.map_cons]

theorem movedDeclarators_eq (ds : List Declarator) : movedDeclarators d ds = ds.map (Declarator.moved d) := by
  induction ds with
  | nil => rfl
  | cons x ds ih => rw [movedDeclarators, ih, List.map_cons]

end Lists

/-! ## Spans -/

theorem Expr.span_moved (d : Nat) (e : Expr) : (e.moved d).span = e.span.moved d := by
  cases e with
  | function fn =>
      obtain ⟨name, ps, body, span⟩ := fn
      rfl
  | _ => rfl

theorem Block.span_moved (d : Nat) (b : Block) : (b.moved d).span = b.span.moved d := by
  obtain ⟨stmts, span⟩ := b
  rfl

/-- A target that stands somewhere: an element that is left out does not. -/
def Pattern.IsPlaced (p : Pattern) : Prop := ∀ d, (p.moved d).span = p.span.moved d

theorem Pattern.isPlaced_ident (id : Ident) : (Pattern.ident id).IsPlaced := fun _ => rfl

theorem Pattern.isPlaced_member (e : Expr) : (Pattern.member e).IsPlaced := fun d => e.span_moved d

theorem Pattern.isPlaced_array (ps : List Pattern) (span : Span) : (Pattern.array ps span).IsPlaced := fun _ => rfl

theorem Pattern.isPlaced_object (ps : List PatternProp) (span : Span) : (Pattern.object ps span).IsPlaced := fun _ => rfl

/-! ## Trees that are not moved -/

mutual

theorem Expr.moved_zero (e : Expr) : e.moved 0 = e := by
  match e with
  | .literal _ _ | .identifier _ _ | .this _ => rfl
  | .template _ es _ | .sequence es _ => simp [Expr.moved, movedExprs_zero es]
  | .array is _ => simp [Expr.moved, movedItems_zero is]
  | .object ps _ => simp [Expr.moved, movedProperties_zero ps]
  | .member o k _ _ => simp [Expr.moved, o.moved_zero, k.moved_zero]
  | .call callee args _ _ => simp [Expr.moved, callee.moved_zero, movedItems_zero args]
  | .arrow ps body _ _ => simp [Expr.moved, movedPatterns_zero ps, body.moved_zero]
  | .function fn => simp [Expr.moved, fn.moved_zero]
  | .await e _ | .unary _ e _ => simp [Expr.moved, e.moved_zero]
  | .update _ _ p _ => simp [Expr.moved, p.moved_zero]
  | .binary _ l r _ | .logical _ l r _ => simp [Expr.moved, l.moved_zero, r.moved_zero]
  | .conditional test yes no _ => simp [Expr.moved, test.moved_zero, yes.moved_zero, no.moved_zero]
  | .assign _ p e _ => simp [Expr.moved, p.moved_zero, e.moved_zero]

theorem movedExprs_zero (es : List Expr) : movedExprs 0 es = es := by
  match es with
  | [] => rfl
  | e :: more => simp [movedExprs, e.moved_zero, movedExprs_zero more]

theorem Item.moved_zero (i : Item) : i.moved 0 = i := by
  match i with
  | .expr e | .spread e => simp [Item.moved, e.moved_zero]
  | .hole => rfl

theorem movedItems_zero (is : List Item) : movedItems 0 is = is := by
  match is with
  | [] => rfl
  | i :: more => simp [movedItems, i.moved_zero, movedItems_zero more]

theorem Key.moved_zero (k : Key) : k.moved 0 = k := by
  match k with
  | .name _ | .literal _ => rfl
  | .computed e => simp [Key.moved, e.moved_zero]

theorem Property.moved_zero (p : Property) : p.moved 0 = p := by
  match p with
  | .init k e _ _ => simp [Property.moved, k.moved_zero, e.moved_zero]
  | .spread e => simp [Property.moved, e.moved_zero]

theorem movedProperties_zero (ps : List Property) : movedProperties 0 ps = ps := by
  match ps with
  | [] => rfl
  | p :: more => simp [movedProperties, p.moved_zero, movedProperties_zero more]

theorem ArrowBody.moved_zero (b : ArrowBody) : b.moved 0 = b := by
  match b with
  | .expr e => simp [ArrowBody.moved, e.moved_zero]
  | .block b => simp [ArrowBody.moved, b.moved_zero]

theorem FunctionDef.moved_zero (fn : FunctionDef) : fn.moved 0 = fn := by
  match fn with
  | .mk none ps body _ | .mk (some _) ps body _ => simp [FunctionDef.moved, movedPatterns_zero ps, body.moved_zero]

theorem Pattern.moved_zero (p : Pattern) : p.moved 0 = p := by
  match p with
  | .ident _ | .hole => rfl
  | .array ps _ => simp [Pattern.moved, movedPatterns_zero ps]
  | .object ps _ => simp [Pattern.moved, movedPatternProps_zero ps]
  | .assign p e => simp [Pattern.moved, p.moved_zero, e.moved_zero]
  | .rest p => simp [Pattern.moved, p.moved_zero]
  | .member e => simp [Pattern.moved, e.moved_zero]

theorem movedPatterns_zero (ps : List Pattern) : movedPatterns 0 ps = ps := by
  match ps with
  | [] => rfl
  | p :: more => simp [movedPatterns, p.moved_zero, movedPatterns_zero more]

theorem PatternProp.moved_zero (p : PatternProp) : p.moved 0 = p := by
  match p with
  | .init k p _ => simp [PatternProp.moved, k.moved_zero, p.moved_zero]
  | .rest p => simp [PatternProp.moved, p.moved_zero]

theorem movedPatternProps_zero (ps : List PatternProp) : movedPatternProps 0 ps = ps := by
  match ps with
  | [] => rfl
  | p :: more => simp [movedPatternProps, p.moved_zero, movedPatternProps_zero more]

theorem Stmt.moved_zero (s : Stmt) : s.moved 0 = s := by
  match s with
  | .expr e _ => simp [Stmt.moved, e.moved_zero]
  | .declare x _ => simp [Stmt.moved, x.moved_zero]
  | .return e _ => simp [Stmt.moved, movedOption_zero e]
  | .cond test yes none _ => simp [Stmt.moved, test.moved_zero, yes.moved_zero]
  | .cond test yes (some no) _ => simp [Stmt.moved, test.moved_zero, yes.moved_zero, no.moved_zero]
  | .while test body _ => simp [Stmt.moved, test.moved_zero, body.moved_zero]
  | .doWhile body test _ => simp [Stmt.moved, test.moved_zero, body.moved_zero]
  | .for init test update body _ =>
      simp [Stmt.moved, init.moved_zero, movedOption_zero test, movedOption_zero update, body.moved_zero]
  | .block b => simp [Stmt.moved, b.moved_zero]
  | .break _ | .continue _ | .debugger _ | .empty _ => rfl
  | .function fn => simp [Stmt.moved, fn.moved_zero]

theorem movedOption_zero (e : Option Expr) : movedOption 0 e = e := by
  match e with
  | none => rfl
  | some e => simp [movedOption, e.moved_zero]

theorem Block.moved_zero (b : Block) : b.moved 0 = b := by
  match b with
  | .mk ss _ => simp [Block.moved, movedStmts_zero ss]

theorem movedStmts_zero (ss : List Stmt) : movedStmts 0 ss = ss := by
  match ss with
  | [] => rfl
  | s :: more => simp [movedStmts, s.moved_zero, movedStmts_zero more]

theorem VarDecl.moved_zero (x : VarDecl) : x.moved 0 = x := by
  match x with
  | .mk _ ds _ => simp [VarDecl.moved, movedDeclarators_zero ds]

theorem Declarator.moved_zero (x : Declarator) : x.moved 0 = x := by
  match x with
  | .mk p init _ => simp [Declarator.moved, p.moved_zero, movedOption_zero init]

theorem movedDeclarators_zero (ds : List Declarator) : movedDeclarators 0 ds = ds := by
  match ds with
  | [] => rfl
  | x :: more => simp [movedDeclarators, x.moved_zero, movedDeclarators_zero more]

theorem ForInit.moved_zero (init : ForInit) : init.moved 0 = init := by
  match init with
  | .absent => rfl
  | .declare x => simp [ForInit.moved, x.moved_zero]
  | .expr e => simp [ForInit.moved, e.moved_zero]

end

end FieldScript
