import FieldScript.Settle.Basic
import FieldScript.Proofs.Syntax.Zones

/-!
# What a tree is made of

A tree comes down to its leaves: literals, texts of templates, the names that it declares, refers to and accesses, and
its calls. A pass that moves parts of a tree around, and puts some in between, keeps the multiset of the leaves apart
from those it puts in.

A target of an assignment refers to the names that it assigns. A function that is written with its keyword is counted
like any other tree.
-/

namespace FieldScript

/-- Something that a tree is made of. -/
inductive Leaf where
  | literal (lit : Literal)
  /-- A piece of text of a template. -/
  | text (part : TemplatePart)
  | declared (constant : Bool) (name : String)
  | reference (name : String)
  /-- A dotted property name, or the key of an entry. -/
  | named (name : String)
  | this
  /-- A call, known by the name it calls, if it is one, the place it was read from and the number of arguments. -/
  | call (callee : Option String) (span : Span) (arity : Nat)
  /-- A call that maps an asynchronous function over an array. -/
  | mapped (span : Span)

namespace Leaf

def isCall : Leaf → Bool
  | .call _ _ _ => true
  | _ => false

/-- The name that a leaf declares or refers to. -/
def name? : Leaf → Option String
  | .declared _ name | .reference name => some name
  | _ => none

/-- Whether a leaf is a reference to a name. -/
def refersTo (name : String) : Leaf → Bool
  | .reference x => x == name
  | _ => false

end Leaf

/-- Whether a declaration word makes constants. -/
def DeclKind.isConst : DeclKind → Bool
  | .const => true
  | _ => false

/-- Whether a call maps an asynchronous function over an array. -/
def mapsAsync (callee : Expr) (args : List Item) : Bool :=
  Settle.isMap callee && match args.head? with
    | some (.expr e) | some (.spread e) => Settle.isAsyncArrow e
    | _ => false

/-- The leaves of a tree. -/
abbrev Census := Multiset Leaf

namespace Census

/-- The name of a function that has one. -/
def ofName : Option Ident → Census
  | none => 0
  | some id => {.declared false id.name}

/-- A call, apart from its parts. Whether it maps an asynchronous function counts only where it matters. -/
def ofCall (settled : Bool) (callee : Expr) (args : List Item) (span : Span) : Census :=
  {.call callee.name? span args.length} + if settled && mapsAsync callee args then {.mapped span} else 0

mutual

/-- The leaves of an expression. In a `settled` tree, calls that map an asynchronous function are counted as such. -/
def ofExpr (settled : Bool) : Expr → Census
  | .literal lit _ => {.literal lit}
  | .template parts es _ => Multiset.ofList (parts.map .text) + ofExprs settled es
  | .array es _ => ofItems settled es
  | .object ps _ => ofProperties settled ps
  | .identifier name _ => {.reference name}
  | .member o k _ _ => ofExpr settled o + ofKey settled k
  | .call callee args _ s => ofCall settled callee args s + (ofExpr settled callee + ofItems settled args)
  | .arrow ps body _ _ => ofPatterns settled (.declared false) ps + ofArrowBody settled body
  | .function fn => ofFunction fn
  | .this _ => {.this}
  | .await e _ => ofExpr settled e
  | .unary _ e _ => ofExpr settled e
  | .update _ _ target _ => ofPattern settled .reference target
  | .binary _ l r _ => ofExpr settled l + ofExpr settled r
  | .logical _ l r _ => ofExpr settled l + ofExpr settled r
  | .conditional test yes no _ => ofExpr settled test + (ofExpr settled yes + ofExpr settled no)
  | .assign _ target e _ => ofPattern settled .reference target + ofExpr settled e
  | .sequence es _ => ofExprs settled es

/-- The leaves of expressions. -/
def ofExprs (settled : Bool) : List Expr → Census
  | [] => 0
  | e :: more => ofExpr settled e + ofExprs settled more

/-- The leaves of elements or arguments. -/
def ofItems (settled : Bool) : List Item → Census
  | [] => 0
  | .expr e :: more => ofExpr settled e + ofItems settled more
  | .spread e :: more => ofExpr settled e + ofItems settled more
  | .hole :: more => ofItems settled more

/-- The leaves of a key. -/
def ofKey (settled : Bool) : Key → Census
  | .name id => {.named id.name}
  | .literal lit => {.literal lit}
  | .computed e => ofExpr settled e

/-- The leaves of the entries of an object. -/
def ofProperties (settled : Bool) : List Property → Census
  | [] => 0
  | .init k e _ _ :: more => ofKey settled k + (ofExpr settled e + ofProperties settled more)
  | .spread e :: more => ofExpr settled e + ofProperties settled more

/-- The leaves of the body of an arrow function. -/
def ofArrowBody (settled : Bool) : ArrowBody → Census
  | .expr e => ofExpr settled e
  | .block b => ofBlock settled b

/-- The leaves of a function with its keyword. Settling leaves it alone. -/
def ofFunction : FunctionDef → Census
  | .mk name ps body _ => ofName name + (ofPatterns false (.declared false) ps + ofBlock false body)

/-- The leaves of a pattern, given what the names in it are. -/
def ofPattern (settled : Bool) (leaf : String → Leaf) : Pattern → Census
  | .ident id => {leaf id.name}
  | .array elements _ => ofPatterns settled leaf elements
  | .object props _ => ofPatternProps settled leaf props
  | .assign target default => ofPattern settled leaf target + ofExpr settled default
  | .rest target => ofPattern settled leaf target
  | .member e => ofExpr settled e
  | .hole => 0

/-- The leaves of patterns. -/
def ofPatterns (settled : Bool) (leaf : String → Leaf) : List Pattern → Census
  | [] => 0
  | p :: more => ofPattern settled leaf p + ofPatterns settled leaf more

/-- The leaves of the entries of an object pattern. -/
def ofPatternProps (settled : Bool) (leaf : String → Leaf) : List PatternProp → Census
  | [] => 0
  | .init k target _ :: more =>
    ofKey settled k + (ofPattern settled leaf target + ofPatternProps settled leaf more)
  | .rest target :: more => ofPattern settled leaf target + ofPatternProps settled leaf more

/-- The leaves of a statement. -/
def ofStmt (settled : Bool) : Stmt → Census
  | .expr e _ => ofExpr settled e
  | .declare (.mk kind ds _) _ => ofDeclarators settled (.declared kind.isConst) ds
  | .return e _ => ofOption settled e
  | .cond test yes no _ => ofExpr settled test + (ofStmt settled yes + (match no with
      | none => 0
      | some no => ofStmt settled no))
  | .while test body _ => ofExpr settled test + ofStmt settled body
  | .doWhile body test _ => ofStmt settled body + ofExpr settled test
  | .for init test update body _ =>
    ofForInit settled init + (ofOption settled test + (ofOption settled update + ofStmt settled body))
  | .block b => ofBlock settled b
  | .break _ => 0
  | .continue _ => 0
  | .debugger _ => 0
  | .empty _ => 0
  | .function fn => ofFunction fn

/-- The leaves of an expression that may be left out. -/
def ofOption (settled : Bool) : Option Expr → Census
  | none => 0
  | some e => ofExpr settled e

/-- The leaves of statements between braces. -/
def ofBlock (settled : Bool) : Block → Census
  | .mk stmts _ => ofStmts settled stmts

/-- The leaves of statements. -/
def ofStmts (settled : Bool) : List Stmt → Census
  | [] => 0
  | s :: more => ofStmt settled s + ofStmts settled more

/-- The leaves of declarators, given what the declared names are. -/
def ofDeclarators (settled : Bool) (leaf : String → Leaf) : List Declarator → Census
  | [] => 0
  | .mk target init _ :: more =>
    ofPattern settled leaf target + (ofOption settled init + ofDeclarators settled leaf more)

/-- The leaves of the first clause of a `for` statement. -/
def ofForInit (settled : Bool) : ForInit → Census
  | .absent => 0
  | .declare (.mk kind ds _) => ofDeclarators settled (.declared kind.isConst) ds
  | .expr e => ofExpr settled e

end

attribute [simp] ofExpr ofExprs ofItems ofKey ofProperties ofArrowBody ofFunction ofPattern ofPatterns ofPatternProps ofStmt
  ofOption ofBlock ofStmts ofDeclarators ofForInit

/-- How many leaves are of a kind. -/
def count (kind : Leaf → Bool) (c : Census) : Nat := c.countP (kind ·)

section

variable (kind : Leaf → Bool) (leaf : Leaf) (c c' : Census)

@[simp] theorem count_zero : count kind 0 = 0 := Multiset.countP_zero _

@[simp] theorem count_add : count kind (c + c') = count kind c + count kind c' := Multiset.countP_add _ _ _

@[simp] theorem count_cons : count kind (leaf ::ₘ c) = count kind c + if kind leaf then 1 else 0 :=
  Multiset.countP_cons _ _ _

@[simp] theorem count_singleton : count kind {leaf} = if kind leaf then 1 else 0 := by
  rw [← Multiset.cons_zero, count_cons, count_zero, zero_add]

theorem count_eq_zero : count kind c = 0 ↔ ∀ leaf ∈ c, kind leaf = false := by
  simp [count, Multiset.countP_eq_zero]

end

variable {settled : Bool}

theorem ofStmts_append (xs ys : List Stmt) :
    ofStmts settled (xs ++ ys) = ofStmts settled xs + ofStmts settled ys := by
  induction xs with
  | nil => rw [List.nil_append, ofStmts, zero_add]
  | cons s more ih => rw [List.cons_append, ofStmts, ofStmts, ih, add_assoc]

theorem ofDeclarators_append (leaf : String → Leaf) (xs ys : List Declarator) :
    ofDeclarators settled leaf (xs ++ ys) = ofDeclarators settled leaf xs + ofDeclarators settled leaf ys := by
  induction xs with
  | nil => rw [List.nil_append, ofDeclarators, zero_add]
  | cons d more ih =>
      obtain ⟨target, init, span⟩ := d
      rw [List.cons_append, ofDeclarators, ofDeclarators, ih, add_assoc, add_assoc]

theorem ofExpr_awaited (e : Expr) : ofExpr settled (Settle.awaited e) = ofExpr settled e := by
  rw [Settle.awaited, ofExpr]

theorem ofStmt_returning (e : Expr) : ofStmt settled (Settle.returning e) = ofExpr settled e := by
  rw [Settle.returning, ofStmt, ofOption]

end Census
end FieldScript
