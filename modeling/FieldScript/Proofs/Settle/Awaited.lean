import FieldScript.Eval.Evaluate
import FieldScript.Proofs.Settle.Walk
import FieldScript.Proofs.Syntax.Nodes
import FieldScript.Render

/-!
# Trees whose asynchronous calls are awaited

A call is written as a call of a capability if no local name that is declared in front of it, in a
scope around it, has the name of the capability. A tree is *awaited* if every call that is written as
a call of an asynchronous capability is the operand of an `await`. The scopes here are the ones that
rendering keeps: a parameter is visible behind itself, a declared name behind its declarator, both up
to the end of the function or block.

There is one place where a call can leave the scope that it was visited in. What the target of a later
declarator of a `for` header needs is declared in front of the loop, where the names of the earlier
declarators are not bound. A *tolerant* view counts those names as bound in the temporaries directly
in front of the loop, and in nothing else.
-/

namespace FieldScript

/-- Whether a call of an expression is written as a call of an asynchronous capability. -/
def Render.callsAsync (out : Render.Outside) (l : Locals) : Expr → Bool
  | .identifier name _ =>
    Render.meaning out l name == .capability && out.capabilities.isAsync name
  | _ => false

/-- Whether a name has the form of a temporary's: an underscore and digits. -/
def isTemporaryName (name : String) : Bool :=
  match name.toList with
  | '_' :: digits => !digits.isEmpty && digits.all Char.isDigit
  | _ => false

/-- Whether a statement declares a temporary. -/
def Stmt.isTemporary : Stmt → Bool
  | .declare (.mk .const [.mk (.ident id) (some (.await _ _)) _] _) _ => isTemporaryName id.name
  | _ => false

/-- The names that are bound by a declarator in front of the last one, in the header of the loop that
follows the temporaries at the start of a list. -/
def headerNames : List Stmt → List String
  | .for (.declare (.mk _ ds _)) _ _ _ _ :: _ => declaredNames ds.dropLast
  | s :: more => if s.isTemporary then headerNames more else []
  | [] => []

/-! ## Shapes of trees -/

mutual

/-- Whether no entry of a pattern has a computed key, defaults apart. -/
def Pattern.keyless : Pattern → Bool
  | .ident _ => true
  | .array elements _ => keylessOf elements
  | .object props _ => keylessOfProps props
  | .assign target _ => target.keyless
  | .rest target => target.keyless
  | .member _ => false
  | .hole => true

def Pattern.keylessOf : List Pattern → Bool
  | [] => true
  | p :: more => p.keyless && keylessOf more

def Pattern.keylessOfProps : List PatternProp → Bool
  | [] => true
  | .init (.computed _) _ _ :: _ => false
  | .init (.name _) target _ :: more => target.keyless && keylessOfProps more
  | .init (.literal _) target _ :: more => target.keyless && keylessOfProps more
  | .rest target :: more => target.keyless && keylessOfProps more

end

/-- The same of the target of a declarator. -/
def Declarator.keyless : Declarator → Bool
  | .mk target _ _ => target.keyless

/-- A target that is a member of an object is written as a member access. -/
def Node.namesMembers : Node → Bool
  | .pattern (.member (.member ..)) => true
  | .pattern (.member _) => false
  | _ => true

/-- In the header of a loop no target but the first one has a computed key. -/
def Node.keylessHeader : Node → Bool
  | .stmt (.for (.declare (.mk _ (_ :: more) _)) _ _ _ _) =>
    more.all Declarator.keyless
  | _ => true

namespace Awaited

/-- What a tree may refer to, and whether temporaries in front of a loop may call the names that its
header binds. -/
structure View where
  out : Render.Outside
  tolerant : Bool

/-- The local names behind a statement. -/
def behind (l : Locals) : Stmt → Locals
  | .declare (.mk _ ds _) _ => l.declareAll (declaredNames ds)
  | .cond _ yes none _ => behind l yes
  | .cond _ yes (some no) _ => behind (behind l yes) no
  | .while _ body _ => behind l body
  | .doWhile body _ _ => behind l body
  | _ => l

/-- The local names behind the first clause of a loop. -/
def behindInit (l : Locals) : ForInit → Locals
  | .declare (.mk _ ds _) => l.declareAll (declaredNames ds)
  | _ => l

/-- The local names that a statement sees, given what follows it. -/
def View.sight (v : View) (l : Locals) (s : Stmt) (more : List Stmt) : Locals :=
  if v.tolerant && s.isTemporary then l.declareAll (headerNames more) else l

mutual

/-- Whether the calls of an expression are awaited; the flag says whether the expression itself is the
operand of an `await`. A `function` is never rendered, so no call in it is written at all. -/
def expr (v : View) (l : Locals) (underAwait : Bool) : Expr → Bool
  | .call callee args _ _ =>
    (underAwait || !Render.callsAsync v.out l callee) && expr v l false callee && items v l args
  | .await e _ => expr v l true e
  | .literal _ _ => true
  | .identifier _ _ => true
  | .this _ => true
  | .function _ => true
  | .template _ es _ => exprs v l es
  | .array es _ => items v l es
  | .object ps _ => properties v l ps
  | .member o k _ _ => expr v l false o && key v l k
  | .arrow ps body _ _ =>
    params v l.push ps && arrowBody v (l.push.declareAll (Pattern.boundNamesOf ps)) body
  | .unary _ e _ => expr v l false e
  | .update _ _ target _ => pattern v l target
  | .binary _ left right _ => expr v l false left && expr v l false right
  | .logical _ left right _ => expr v l false left && expr v l false right
  | .conditional test yes no _ => expr v l false test && expr v l false yes && expr v l false no
  | .assign _ target e _ => pattern v l target && expr v l false e
  | .sequence es _ => exprs v l es

def exprs (v : View) (l : Locals) : List Expr → Bool
  | [] => true
  | e :: more => expr v l false e && exprs v l more

def items (v : View) (l : Locals) : List Item → Bool
  | [] => true
  | .expr e :: more => expr v l false e && items v l more
  | .spread e :: more => expr v l false e && items v l more
  | .hole :: more => items v l more

def key (v : View) (l : Locals) : Key → Bool
  | .computed e => expr v l false e
  | .name _ => true
  | .literal _ => true

def properties (v : View) (l : Locals) : List Property → Bool
  | [] => true
  | .init k e _ _ :: more => key v l k && expr v l false e && properties v l more
  | .spread e :: more => expr v l false e && properties v l more

def arrowBody (v : View) (l : Locals) : ArrowBody → Bool
  | .expr e => expr v l false e
  | .block b => block v l b

/-- Parameters, each visible to the ones behind it. -/
def params (v : View) (l : Locals) : List Pattern → Bool
  | [] => true
  | p :: more => pattern v l p && params v (l.declareAll p.boundNames) more

def pattern (v : View) (l : Locals) : Pattern → Bool
  | .ident _ => true
  | .array elements _ => patterns v l elements
  | .object props _ => patternProps v l props
  | .assign target default => pattern v l target && expr v l false default
  | .rest target => pattern v l target
  | .member e => expr v l false e
  | .hole => true

def patterns (v : View) (l : Locals) : List Pattern → Bool
  | [] => true
  | p :: more => pattern v l p && patterns v l more

def patternProps (v : View) (l : Locals) : List PatternProp → Bool
  | [] => true
  | .init k target _ :: more => key v l k && pattern v l target && patternProps v l more
  | .rest target :: more => pattern v l target && patternProps v l more

def block (v : View) (l : Locals) : Block → Bool
  | .mk stmts _ => statements v l.push stmts

def statements (v : View) (l : Locals) : List Stmt → Bool
  | [] => true
  | s :: more => statement v (v.sight l s more) s && statements v (behind l s) more

def statement (v : View) (l : Locals) : Stmt → Bool
  | .expr e _ => expr v l false e
  | .declare (.mk _ ds _) _ => declarators v l ds
  | .return e _ => optional v l e
  | .cond test yes none _ => expr v l false test && statement v l yes
  | .cond test yes (some no) _ =>
    expr v l false test && statement v l yes && statement v (behind l yes) no
  | .while test body _ => expr v l false test && statement v l body
  | .doWhile body test _ => statement v l body && expr v (behind l body) false test
  | .for init test update body _ =>
    forInit v l.push init && optional v (behindInit l.push init) test &&
      optional v (behindInit l.push init) update && statement v (behindInit l.push init) body
  | .block b => block v l b
  | .break _ => true
  | .continue _ => true
  | .debugger _ => true
  | .empty _ => true
  | .function _ => true

def optional (v : View) (l : Locals) : Option Expr → Bool
  | none => true
  | some e => expr v l false e

def forInit (v : View) (l : Locals) : ForInit → Bool
  | .absent => true
  | .declare (.mk _ ds _) => declarators v l ds
  | .expr e => expr v l false e

/-- Declarators, each of which sees the names of the ones in front of it. -/
def declarators (v : View) (l : Locals) : List Declarator → Bool
  | [] => true
  | .mk target init _ :: more =>
    pattern v l target && optional v l init && declarators v (l.declareAll target.boundNames) more

end

end Awaited
end FieldScript
