import FieldScript.Source
import FieldScript.Syntax.Operator

/-!
# The syntax of field bodies

A body is one expression. Arrow functions bring blocks of statements with them, and declarations,
parameters and assignments bring patterns, so the three kinds of trees are defined together. Every
tree knows the span it was read from. Parentheses leave no trace.

Some trees never survive validation (`function`, `this`) or are mostly made by later passes (`await`).
-/

namespace FieldScript

/-- A name and the place where it is written. -/
structure Ident where
  name : String
  span : Span
deriving DecidableEq, Repr, Inhabited

/-- The value of a literal. -/
inductive LiteralValue where
  | number (x : Float)
  | string (s : String)
  | bool (b : Bool)
  | null
deriving Repr, Inhabited

/-- A literal with the text it is written as. -/
structure Literal where
  value : LiteralValue
  raw : String
deriving Repr, Inhabited

/-- A piece of text of a template, as written and with its escapes resolved. -/
structure TemplatePart where
  raw : String
  cooked : String
deriving DecidableEq, Repr, Inhabited

/-- The word that opens a declaration. -/
inductive DeclKind where
  | const
  | let
  | var
deriving DecidableEq, Repr

/-- The written form of a declaration word. -/
def DeclKind.text : DeclKind → String
  | .const => "const"
  | .let => "let"
  | .var => "var"

mutual

/-- An expression. -/
inductive Expr where
  | literal (lit : Literal) (span : Span)
  /-- One more part than there are substitutions. -/
  | template (parts : List TemplatePart) (exprs : List Expr) (span : Span)
  | array (items : List Item) (span : Span)
  | object (props : List Property) (span : Span)
  | identifier (name : String) (span : Span)
  /-- A dotted or computed access. Its key is no literal. -/
  | member (object : Expr) (key : Key) (optional : Bool) (span : Span)
  /-- A call. Its arguments have no holes. -/
  | call (callee : Expr) (args : List Item) (optional : Bool) (span : Span)
  | arrow (params : List Pattern) (body : ArrowBody) (isAsync : Bool) (span : Span)
  | function (fn : FunctionDef)
  | this (span : Span)
  | await (arg : Expr) (span : Span)
  | unary (op : UnaryOp) (arg : Expr) (span : Span)
  | update (op : UpdateOp) (before : Bool) (target : Pattern) (span : Span)
  | binary (op : BinaryOp) (left right : Expr) (span : Span)
  | logical (op : LogicalOp) (left right : Expr) (span : Span)
  | conditional (test yes no : Expr) (span : Span)
  | assign (op : AssignOp) (target : Pattern) (value : Expr) (span : Span)
  | sequence (exprs : List Expr) (span : Span)

/-- An element of an array or an argument of a call. -/
inductive Item where
  | expr (e : Expr)
  | spread (e : Expr)
  /-- An element that is left out. -/
  | hole

/-- How a member is named. -/
inductive Key where
  | name (id : Ident)
  | literal (lit : Literal)
  | computed (e : Expr)

/-- An entry of an object. -/
inductive Property where
  | init (key : Key) (value : Expr) (shorthand : Bool) (span : Span)
  | spread (e : Expr)

/-- The body of an arrow function. -/
inductive ArrowBody where
  | expr (e : Expr)
  | block (b : Block)

/-- A function written with its keyword. -/
inductive FunctionDef where
  | mk (name : Option Ident) (params : List Pattern) (body : Block) (span : Span)

/-- A target of a binding or an assignment. -/
inductive Pattern where
  | ident (id : Ident)
  | array (elements : List Pattern) (span : Span)
  | object (props : List PatternProp) (span : Span)
  /-- A target with the default for an undefined value. -/
  | assign (target : Pattern) (default : Expr)
  | rest (target : Pattern)
  /-- A member of an object, which only an assignment may name. -/
  | member (e : Expr)
  /-- An element of an array pattern that is left out. -/
  | hole

/-- An entry of an object pattern. -/
inductive PatternProp where
  | init (key : Key) (value : Pattern) (shorthand : Bool)
  | rest (target : Pattern)

/-- A statement. -/
inductive Stmt where
  | expr (e : Expr) (span : Span)
  | declare (decl : VarDecl) (span : Span)
  | return (arg : Option Expr) (span : Span)
  | cond (test : Expr) (yes : Stmt) (no : Option Stmt) (span : Span)
  | while (test : Expr) (body : Stmt) (span : Span)
  | doWhile (body : Stmt) (test : Expr) (span : Span)
  | for (init : ForInit) (test update : Option Expr) (body : Stmt) (span : Span)
  | block (b : Block)
  | break (span : Span)
  | continue (span : Span)
  | debugger (span : Span)
  | empty (span : Span)
  | function (fn : FunctionDef)

/-- Statements between braces. -/
inductive Block where
  | mk (stmts : List Stmt) (span : Span)

/-- A declaration of one or more targets. -/
inductive VarDecl where
  | mk (kind : DeclKind) (declarators : List Declarator) (span : Span)

/-- One target of a declaration with its initial value. -/
inductive Declarator where
  | mk (target : Pattern) (init : Option Expr) (span : Span)

/-- The first clause of a `for` statement. -/
inductive ForInit where
  | absent
  | declare (decl : VarDecl)
  | expr (e : Expr)

end

instance : Inhabited Expr := ⟨.this default⟩

namespace Expr

/-- The place an expression was read from. -/
def span : Expr → Span
  | .literal _ s | .template _ _ s | .array _ s | .object _ s | .identifier _ s
  | .member _ _ _ s | .call _ _ _ s | .arrow _ _ _ s | .function (.mk _ _ _ s) | .this s
  | .await _ s | .unary _ _ s | .update _ _ _ s | .binary _ _ _ s | .logical _ _ _ s
  | .conditional _ _ _ s | .assign _ _ _ s | .sequence _ s => s

/-- Whether an expression is a bare member access or call. -/
def isMemberOrCall : Expr → Bool
  | .member .. | .call .. => true
  | _ => false

end Expr

namespace Pattern

/-- The place a pattern was read from. -/
def span : Pattern → Span
  | .ident id => id.span
  | .array _ s | .object _ s => s
  | .assign target default => target.span.merge default.span
  | .rest target => target.span
  | .member e => e.span
  | .hole => Span.point 0

mutual

/-- The names that a pattern introduces, in the order in which they are written. Defaults are not
looked into, and a member target introduces none. -/
def boundNames : Pattern → List String
  | .ident id => [id.name]
  | .array elements _ => boundNamesOf elements
  | .object props _ => boundNamesOfProps props
  | .assign target _ => target.boundNames
  | .rest target => target.boundNames
  | .member _ => []
  | .hole => []

/-- The names that patterns introduce one after another. -/
def boundNamesOf : List Pattern → List String
  | [] => []
  | p :: more => p.boundNames ++ boundNamesOf more

/-- The names that the entries of an object pattern introduce. -/
def boundNamesOfProps : List PatternProp → List String
  | [] => []
  | .init _ value _ :: more => value.boundNames ++ boundNamesOfProps more
  | .rest target :: more => target.boundNames ++ boundNamesOfProps more

end

end Pattern

namespace Block

def stmts : Block → List Stmt
  | .mk stmts _ => stmts

def span : Block → Span
  | .mk _ span => span

end Block

namespace FunctionDef

def span : FunctionDef → Span
  | .mk _ _ _ span => span

end FunctionDef

namespace Stmt

/-- The place a statement was read from. -/
def span : Stmt → Span
  | .expr _ s | .declare _ s | .return _ s | .cond _ _ _ s | .while _ _ s | .doWhile _ _ s
  | .for _ _ _ _ s | .break s | .continue s | .debugger s | .empty s => s
  | .block b => b.span
  | .function fn => fn.span

/-- A statement as a block: a block statement is its own. -/
def toBlock : Stmt → Block
  | .block b => b
  | s => .mk [s] s.span

end Stmt
end FieldScript
