import FieldScript.Capability
import FieldScript.Locals
import FieldScript.Prelude

/-!
# Settling asynchronous calls: the state of the walk

A field body is written as if every capability answered at once. Settling turns it into a block in
which every asynchronous result is awaited before it is used. The walk over a body keeps

* the local names in scope,
* whether the innermost function has got an `await`,
* the declarations that wait to be placed in front of the statement at hand,
* how many temporaries there are, and which functions of the prelude are referred to.

Visiting an expression answers the new expression and whether its value is still pending; the
position of the expression decides how a pending value is settled.
-/

namespace FieldScript.Settle

/-- What a body may refer to from outside. -/
structure Outside where
  capabilities : Capabilities
  args : List String

/-- The state of the walk. -/
structure State where
  locals : Locals
  /-- Whether the innermost function has got an `await`. -/
  awaits : Bool
  /-- Declarations to be placed in front of the statement at hand, in order. -/
  hoisted : List Stmt
  temporaries : Nat
  helpers : List String

/-- A step of the walk. -/
abbrev Walk (α : Type) := ReaderT Outside (StateM State) α

/-- An expression that has been visited, and whether its value is pending. -/
abbrev Visited := Walk (Expr × Bool)

/-- A fresh name. -/
def temporary : Walk String := do
  let s ← get
  set { s with temporaries := s.temporaries + 1 }
  return "_" ++ Nat.repr s.temporaries

/-- Notes that the innermost function awaits. -/
def markAwait : Walk Unit := modify fun s => { s with awaits := true }

/-- Runs a step in a scope of its own. -/
def inScope {α : Type} (step : Walk α) : Walk α := do
  modify fun s => { s with locals := s.locals.push }
  let x ← step
  modify fun s => { s with locals := s.locals.pop }
  return x

/-- Runs a step with no declarations waiting, and answers those that it leaves. -/
def collecting {α : Type} (step : Walk α) : Walk (α × List Stmt) := do
  let outer := (← get).hoisted
  modify fun s => { s with hoisted := [] }
  let x ← step
  let found := (← get).hoisted
  modify fun s => { s with hoisted := outer }
  return (x, found)

/-- Runs a step as part of another function, and answers whether that function awaits. -/
def framed {α : Type} (isAsync : Bool) (step : Walk α) : Walk (α × Bool) := do
  let outer := (← get).awaits
  modify fun s => { s with awaits := isAsync }
  let x ← step
  let awaits := (← get).awaits
  modify fun s => { s with awaits := outer }
  return (x, awaits)

def declareAll (names : List String) : Walk Unit :=
  modify fun s => { s with locals := s.locals.declareAll names }

/-- A function of the prelude is needed once its name occurs and means nothing else. -/
def noteName (name : String) : Walk Unit := do
  let out ← read
  let s ← get
  if Prelude.contains name && !s.locals.contains name && !out.capabilities.contains name &&
      !out.args.contains name && !s.helpers.contains name then
    set { s with helpers := s.helpers ++ [name] }

/-- Whether calling an expression starts an asynchronous computation, as far as its name tells: it
is an asynchronous capability that no local name shadows, or a local asynchronous function. -/
def callsAsync (callee : Expr) : Walk Bool := do
  match callee with
  | .identifier name _ =>
    let out ← read
    let s ← get
    return (out.capabilities.isAsync name && !s.locals.contains name) ||
      s.locals.isAsyncFunction name
  | _ => return false

/-! ## Trees that settling makes -/

/-- An expression with an `await` in front. -/
def awaited (e : Expr) : Expr := .await e e.span

/-- A declaration statement. -/
def declareStmt (kind : DeclKind) (ds : List Declarator) (span : Span) : Stmt :=
  .declare (.mk kind ds span) span

/-- A `return` of an expression. -/
def returning (e : Expr) : Stmt := .return (some e) e.span

/-- Runs declarations and then an expression inside an asynchronous function, and awaits it. -/
def thunk (decls : List Stmt) (e : Expr) : Expr :=
  let span := e.span
  let body := ArrowBody.block (.mk (decls ++ [returning e]) span)
  awaited (.call (.arrow [] body true span) [] false span)

/-- Waits for all values of an array of pending values. -/
def joinAll (call : Expr) : Expr :=
  let span := call.span
  .call (.member (.identifier "Promise" span) (.name ⟨"all", span⟩) false span) [.expr call] false span

def isAsyncArrow : Expr → Bool
  | .arrow _ _ isAsync _ => isAsync
  | _ => false

/-- Whether a call with this callee maps a function over an array. -/
def isMap : Expr → Bool
  | .member _ (.name id) _ _ => id.name == "map"
  | _ => false

/-! ## Positions -/

/-- A position whose value is used at once: a pending value is awaited in place. -/
def inPlace (visited : Visited) : Walk Expr := do
  let (e, pending) ← visited
  if pending then
    markAwait
    return awaited e
  else return e

/-- The object of a member access: a pending value is awaited in a declaration of its own. -/
def asObject (visited : Visited) : Walk Expr := do
  let (e, pending) ← visited
  if pending then
    let name ← temporary
    let declarator := Declarator.mk (.ident ⟨name, e.span⟩) (some (awaited e)) e.span
    modify fun s =>
      { s with hoisted := s.hoisted ++ [declareStmt .const [declarator] e.span], awaits := true }
    return .identifier name e.span
  else return e

/-- A position that may not be reached: declarations that it needs stay inside it. -/
def lazily (visited : Visited) : Walk Expr := do
  let (e, decls) ← collecting (inPlace visited)
  if decls.isEmpty then return e
  else
    markAwait
    return thunk decls e

/-- A statement behind the declarations that it needs. -/
def placed (step : Walk Stmt) : Walk (List Stmt) := do
  let (s, decls) ← collecting step
  return decls ++ [s]

/-- The body of a branch or loop, of which `out` is what has become of it: a block, so that
declarations have a place. -/
def bodyOf (body : Stmt) (out : List Stmt) : Stmt :=
  match body, out with
  | .block _, [s] => s
  | _, _ => .block (.mk out body.span)

end FieldScript.Settle
