import FieldScript.Capability
import FieldScript.Diagnostic
import FieldScript.NameEnv
import FieldScript.Prelude
import FieldScript.Syntax.Basic

/-!
# Admissible bodies

A body may only refer to names that are in scope where it refers to them, and it may not use
`function`, `this`, `await`, `delete` or, unless it is being debugged, `debugger`. A declaration is in
scope behind its declarator up to the end of its block, and a parameter behind itself up to the end of
its function. The first violation is reported.
-/

namespace FieldScript

/-- What a body may not do. -/
inductive Violation.Cause where
  | unavailable (name : String) (available : List String)
  | debugger
  | functionDeclaration
  | functionExpression
  | this
  | await
  | delete
deriving DecidableEq, Repr

/-- A violation and its place. -/
structure Violation where
  cause : Violation.Cause
  span : Span
deriving DecidableEq, Repr

/-- The wording of a violation. -/
def Violation.Cause.message : Violation.Cause → String
  | .unavailable name available =>
    "The variable \"" ++ name ++ "\" is not available in the current context. Available: " ++
      ", ".intercalate available ++ "."
  | .debugger => "The debugger statement can only be used with enabled debug option."
  | .functionDeclaration =>
    "Declaring a new `function` is not allowed. Only anonymous functions (\"=>\") can be used."
  | .functionExpression => "Using `function` is not allowed. Use arrow functions (\"=>\") instead."
  | .this => "Using `this` is not allowed. The context is only given explicitly."
  | .await => "Using `await` is not allowed. Asynchronous calls are automatically wrapped."
  | .delete => "Using `delete` is not allowed. Use the spread operator instead."

/-- The diagnostic of a violation. -/
def Violation.toDiagnostic (v : Violation) (source : Source) : Diagnostic :=
  let code := match v.cause with
    | .unavailable .. => Diagnostic.Code.freeVariable
    | _ => Diagnostic.Code.forbiddenConstruct
  .inComposite code v.cause.message (source.location v.span)

/-- Global names that every body may use. -/
def standardNames : List String := ["null", "undefined", "Array", "Object", "Math"]

/-- Global names that only bodies which are being debugged may use. -/
def debugNames : List String := ["console", "assert"]

/-- The names that the body of a field may use without declaring them. -/
def fieldNames (capabilities : Capabilities) (args : List String) (debug : Bool) : NameEnv :=
  .ofList (capabilities.names ++ args ++ Prelude.names ++ standardNames ++
    if debug then debugNames else [])

namespace Validate

/-- Refuses a name that is not in scope. -/
def name (env : NameEnv) (name : String) (span : Span) : Except Violation Unit :=
  if env.isBound name then .ok () else .error ⟨.unavailable name env.visible, span⟩

mutual

/-- Checks an expression. -/
def expr (debug : Bool) (env : NameEnv) : Expr → Except Violation Unit
  | .literal _ _ => .ok ()
  | .identifier x span => name env x span
  | .template _ es _ => exprs debug env es
  | .array elements _ => items debug env elements
  | .object props _ => properties debug env props
  | .member o k _ _ => do
    expr debug env o
    key debug env k
  | .call callee args _ _ => do
    expr debug env callee
    items debug env args
  | .arrow params body _ _ => do
    let inner ← parameters debug env.push params
    arrowBody debug inner body
  | .function (.mk _ _ _ span) => .error ⟨.functionExpression, span⟩
  | .this span => .error ⟨.this, span⟩
  | .await _ span => .error ⟨.await, span⟩
  | .unary .delete _ span => .error ⟨.delete, span⟩
  | .unary _ e _ => expr debug env e
  | .update _ _ (.ident id) _ => name env id.name id.span
  | .update _ _ target _ => pattern debug env target
  | .binary _ l r _ => do
    expr debug env l
    expr debug env r
  | .logical _ l r _ => do
    expr debug env l
    expr debug env r
  | .conditional test yes no _ => do
    expr debug env test
    expr debug env yes
    expr debug env no
  | .assign _ target e _ => do
    pattern debug env target
    expr debug env e
  | .sequence es _ => exprs debug env es

/-- Checks expressions. -/
def exprs (debug : Bool) (env : NameEnv) : List Expr → Except Violation Unit
  | [] => .ok ()
  | e :: rest => do
    expr debug env e
    exprs debug env rest

/-- Checks elements or arguments. -/
def items (debug : Bool) (env : NameEnv) : List Item → Except Violation Unit
  | [] => .ok ()
  | .expr e :: rest => do
    expr debug env e
    items debug env rest
  | .spread e :: rest => do
    expr debug env e
    items debug env rest
  | .hole :: rest => items debug env rest

/-- Checks the entries of an object. -/
def properties (debug : Bool) (env : NameEnv) : List Property → Except Violation Unit
  | [] => .ok ()
  | .init k e _ _ :: rest => do
    key debug env k
    expr debug env e
    properties debug env rest
  | .spread e :: rest => do
    expr debug env e
    properties debug env rest

/-- Checks a key. Only a computed one refers to names. -/
def key (debug : Bool) (env : NameEnv) : Key → Except Violation Unit
  | .name _ => .ok ()
  | .literal _ => .ok ()
  | .computed e => expr debug env e

/-- Checks the body of a function. -/
def arrowBody (debug : Bool) (env : NameEnv) : ArrowBody → Except Violation Unit
  | .expr e => expr debug env e
  | .block b => block debug env b

/-- Checks parameters, each of which is in scope for the next ones. -/
def parameters (debug : Bool) (env : NameEnv) : List Pattern → Except Violation NameEnv
  | [] => .ok env
  | p :: rest => do
    pattern debug env p
    parameters debug (env.declareAll p.boundNames) rest

/-- Checks the expressions within a pattern. The names it binds are not looked up. -/
def pattern (debug : Bool) (env : NameEnv) : Pattern → Except Violation Unit
  | .ident _ => .ok ()
  | .array elements _ => patterns debug env elements
  | .object props _ => patternProps debug env props
  | .assign target default => do
    pattern debug env target
    expr debug env default
  | .rest target => pattern debug env target
  | .member e => expr debug env e
  | .hole => .ok ()

/-- Checks patterns. -/
def patterns (debug : Bool) (env : NameEnv) : List Pattern → Except Violation Unit
  | [] => .ok ()
  | p :: rest => do
    pattern debug env p
    patterns debug env rest

/-- Checks the entries of an object pattern. -/
def patternProps (debug : Bool) (env : NameEnv) : List PatternProp → Except Violation Unit
  | [] => .ok ()
  | .init k target _ :: rest => do
    key debug env k
    pattern debug env target
    patternProps debug env rest
  | .rest target :: rest => do
    pattern debug env target
    patternProps debug env rest

/-- Checks a statement; the names behind it. -/
def stmt (debug : Bool) (env : NameEnv) : Stmt → Except Violation NameEnv
  | .expr e _ => do
    expr debug env e
    return env
  | .declare (.mk _ ds _) _ => declarators debug env ds
  | .return none _ => .ok env
  | .return (some e) _ => do
    expr debug env e
    return env
  | .cond test yes no _ => do
    expr debug env test
    let env ← stmt debug env yes
    match no with
    | some no => stmt debug env no
    | none => return env
  | .while test body _ => do
    expr debug env test
    stmt debug env body
  | .doWhile body test _ => do
    let env ← stmt debug env body
    expr debug env test
    return env
  | .for init test update body _ => do
    let inner ← forInit debug env.push init
    optional debug inner test
    optional debug inner update
    let _ ← stmt debug inner body
    return env
  | .block b => do
    block debug env b
    return env
  | .break _ => .ok env
  | .continue _ => .ok env
  | .empty _ => .ok env
  | .debugger span => if debug then .ok env else .error ⟨.debugger, span⟩
  | .function (.mk _ _ _ span) => .error ⟨.functionDeclaration, span⟩

/-- Checks an expression that may be left out. -/
def optional (debug : Bool) (env : NameEnv) : Option Expr → Except Violation Unit
  | none => .ok ()
  | some e => expr debug env e

/-- Checks the first clause of a loop; the names behind it. -/
def forInit (debug : Bool) (env : NameEnv) : ForInit → Except Violation NameEnv
  | .absent => .ok env
  | .declare (.mk _ ds _) => declarators debug env ds
  | .expr e => do
    expr debug env e
    return env

/-- Checks declarators; the names behind them. -/
def declarators (debug : Bool) (env : NameEnv) : List Declarator → Except Violation NameEnv
  | [] => .ok env
  | .mk target init _ :: rest => do
    optional debug env init
    pattern debug env target
    declarators debug (env.declareAll target.boundNames) rest

/-- Checks the statements of a block in a scope of its own. -/
def block (debug : Bool) (env : NameEnv) : Block → Except Violation Unit
  | .mk ss _ => do
    let _ ← stmts debug env.push ss

/-- Checks statements; the names behind them. -/
def stmts (debug : Bool) (env : NameEnv) : List Stmt → Except Violation NameEnv
  | [] => .ok env
  | s :: rest => do
    let env ← stmt debug env s
    stmts debug env rest

end

end Validate

/-- Checks the body of a field against the names that it may use. -/
def Expr.validate (body : Expr) (capabilities : Capabilities) (args : List String) (debug : Bool) :
    Except Violation Unit :=
  Validate.expr debug (fieldNames capabilities args debug) body

end FieldScript
