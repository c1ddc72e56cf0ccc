import FieldScript.Settle.Basic

/-!
# Settling asynchronous calls: the walk

Work never moves out of a position that may not be reached, nor in front of something it depends on.
Since `await` may not stand in a parameter list, a parameter that needs one is bound at the start of
the body, together with all parameters behind it.

The block that stands for a field body (`settle`) has the functions of the prelude that it needs and the settled body,
whose value is returned.
-/

namespace FieldScript

namespace Settle

/-- Moves a parameter into the body: answers the parameter that takes its place and the declaration
that binds it. -/
def moveParam (param : Pattern) : Walk (Pattern × Stmt) := do
  let span := param.span
  let name ← temporary
  let temp := Pattern.ident ⟨name, span⟩
  let value := Expr.identifier name span
  let (slot, pattern) := match param with
    | .rest inner => (Pattern.rest temp, inner)
    | other => (temp, other)
  let (target, init) := match pattern with
    | .assign target default =>
      let test := Expr.binary .strictEq value (.identifier "undefined" span) span
      (target, Expr.conditional test default value span)
    | other => (other, value)
  return (slot, declareStmt .let [.mk target (some init) span] span)

/-- One parameter: the parameter left in its place, and what moves into the body, given whether
something has moved before. -/
def param (visited : Walk Pattern) (moved : Bool) : Walk (Pattern × List Stmt) := do
  let ((p, decls), flagged) ← framed false (collecting visited)
  let awaits := flagged || !decls.isEmpty
  if awaits then markAwait
  let names := p.boundNames
  if awaits || moved then
    let (slot, decl) ← moveParam p
    declareAll names
    return (slot, decls ++ [decl])
  else
    declareAll names
    return (p, [])

/-- The body of an arrow function behind what moves into it. -/
def withMoved (moved : List Stmt) (body : ArrowBody) (span : Span) : ArrowBody :=
  if moved.isEmpty then body
  else
    match body with
    | .expr e => .block (.mk (moved ++ [returning e]) span)
    | .block b => .block (.mk (moved ++ b.stmts) span)

/-- A body that is one expression. It becomes a block if it is a bare access or call, or if it
needs declarations. -/
def exprBody (bare : Bool) (visited : Visited) (span : Span) : Walk ArrowBody := do
  let (e, decls) ← collecting (inPlace visited)
  if bare || !decls.isEmpty then return .block (.mk (decls ++ [returning e]) span)
  else return .expr e

/-- What is known about a declared name once its initial value is. -/
def noteFunction (target : Pattern) (init : Option Expr) : Walk Unit :=
  match target, init with
  | .ident id, some e =>
    if isAsyncArrow e then modify fun s => { s with locals := s.locals.declareAsync id.name }
    else return ()
  | _, _ => return ()

/-- Finishes a declarator whose parts have been visited. -/
def declarator (target : Pattern) (init : Option Expr) (span : Span) : Walk Declarator := do
  declareAll target.boundNames
  noteFunction target init
  return .mk target init span

mutual

/-- Visits an expression. Only calls can be pending. -/
def expr : Expr → Visited
  | .call callee args optional span => do
    let capability ← callsAsync callee
    let callee ← inPlace (expr callee)
    let args ← items args
    let callback := args.any fun
      | .expr e => isAsyncArrow e
      | _ => false
    let parallel := isMap callee && match args.head? with
      | some (.expr e) | some (.spread e) => isAsyncArrow e
      | _ => false
    let call := Expr.call callee args optional span
    if parallel then return (joinAll call, true)
    else return (call, capability || isAsyncArrow callee || callback)
  | .literal lit span => return (.literal lit span, false)
  | .this span => return (.this span, false)
  | .function fn => return (.function fn, false)
  | .identifier name span => do
    noteName name
    return (.identifier name span, false)
  | .template parts es span => do
    return (.template parts (← values es) span, false)
  | .array es span => do
    return (.array (← items es) span, false)
  | .object ps span => do
    return (.object (← properties ps) span, false)
  | .member object k optional span => do
    let object ← asObject (expr object)
    let k ← key k
    return (.member object k optional span, false)
  | .arrow ps body isAsync span => do
    let ((ps, body), awaits) ← framed isAsync <| inScope do
      let (ps, moved) ← params false ps
      let body ← arrowBody span body
      return (ps, withMoved moved body span)
    return (.arrow ps body awaits span, false)
  | .await e span => do
    let e ← inPlace (expr e)
    markAwait
    return (.await e span, false)
  | .unary op e span => do
    return (.unary op (← inPlace (expr e)) span, false)
  | .update op before target span => do
    return (.update op before (← pattern target) span, false)
  | .binary op l r span => do
    let l ← inPlace (expr l)
    let r ← inPlace (expr r)
    return (.binary op l r span, false)
  | .logical op l r span => do
    let l ← inPlace (expr l)
    let r ← lazily (expr r)
    return (.logical op l r span, false)
  | .conditional test yes no span => do
    let test ← inPlace (expr test)
    let yes ← lazily (expr yes)
    let no ← lazily (expr no)
    return (.conditional test yes no span, false)
  | .assign op target value span => do
    let target ← pattern target
    let value ← inPlace (expr value)
    return (.assign op target value span, false)
  | .sequence es span => do
    match es with
    | [] => return (.sequence [] span, false)
    | e :: more =>
      let e ← inPlace (expr e)
      let more ← lazyValues more
      return (.sequence (e :: more) span, false)

/-- Visits expressions whose values are used at once. -/
def values : List Expr → Walk (List Expr)
  | [] => return []
  | e :: more => do
    let e ← inPlace (expr e)
    return e :: (← values more)

/-- Visits the later operands of a sequence, which may depend on the ones in front of them. -/
def lazyValues : List Expr → Walk (List Expr)
  | [] => return []
  | e :: more => do
    let e ← lazily (expr e)
    return e :: (← lazyValues more)

/-- Visits elements or arguments. -/
def items : List Item → Walk (List Item)
  | [] => return []
  | .hole :: more => return .hole :: (← items more)
  | .expr e :: more => do
    let e ← inPlace (expr e)
    return .expr e :: (← items more)
  | .spread e :: more => do
    let e ← inPlace (expr e)
    return .spread e :: (← items more)

/-- Visits a key. -/
def key : Key → Walk Key
  | .computed e => return .computed (← inPlace (expr e))
  | .name id => return .name id
  | .literal lit => return .literal lit

/-- Visits the entries of an object. -/
def properties : List Property → Walk (List Property)
  | [] => return []
  | .spread e :: more => do
    let e ← inPlace (expr e)
    return .spread e :: (← properties more)
  | .init k value shorthand span :: more => do
    let k ← key k
    let value ← inPlace (expr value)
    return .init k value shorthand span :: (← properties more)

/-- Visits the body of an arrow function that spans `span`. -/
def arrowBody (span : Span) : ArrowBody → Walk ArrowBody
  | .expr e => exprBody e.isMemberOrCall (expr e) span
  | .block b => return .block (← block b)

/-- Visits parameters, given whether one in front of them has moved into the body. -/
def params (moved : Bool) : List Pattern → Walk (List Pattern × List Stmt)
  | [] => return ([], [])
  | p :: more => do
    let (p, decls) ← param (pattern p) moved
    let (more, others) ← params (moved || !decls.isEmpty) more
    return (p :: more, decls ++ others)

/-- Visits the expressions inside a pattern. Defaults may not be reached. -/
def pattern : Pattern → Walk Pattern
  | .ident id => return .ident id
  | .array elements span => return .array (← patterns elements) span
  | .object props span => return .object (← patternProps props) span
  | .assign target default => do
    let target ← pattern target
    let default ← lazily (expr default)
    return .assign target default
  | .rest target => return .rest (← pattern target)
  | .member e => do
    let (e, _) ← expr e
    return .member e
  | .hole => return .hole

/-- Visits the elements of an array pattern. -/
def patterns : List Pattern → Walk (List Pattern)
  | [] => return []
  | p :: more => do
    let p ← pattern p
    return p :: (← patterns more)

/-- Visits the entries of an object pattern. -/
def patternProps : List PatternProp → Walk (List PatternProp)
  | [] => return []
  | .init k value shorthand :: more => do
    let k ← key k
    let value ← pattern value
    return .init k value shorthand :: (← patternProps more)
  | .rest target :: more => do
    let target ← pattern target
    return .rest target :: (← patternProps more)

/-- Visits statements between braces. -/
def block : Block → Walk Block
  | .mk stmts span => do
    let out ← inScope (statements stmts)
    return .mk out span

/-- Visits statements one after another. -/
def statements : List Stmt → Walk (List Stmt)
  | [] => return []
  | s :: more => do
    let out ← statement s
    return out ++ (← statements more)

/-- Visits a statement of a block; the declarations that it needs come in front of it. -/
def statement : Stmt → Walk (List Stmt)
  | .declare (.mk kind ds _) span => declaration kind span [] ds
  | .expr e span => placed do
    return .expr (← inPlace (expr e)) span
  | .return (some e) span => placed do
    return .return (some (← inPlace (expr e))) span
  | .return none span => return [.return none span]
  | .cond test yes no span => placed do
    let test ← inPlace (expr test)
    let out ← inScope (statement yes)
    let yes := bodyOf yes out
    match no with
    | none => return .cond test yes none span
    | some no =>
      let out ← inScope (statement no)
      return .cond test yes (some (bodyOf no out)) span
  | .while test body span => placed do
    let test ← lazily (expr test)
    let out ← inScope (statement body)
    return .while test (bodyOf body out) span
  | .doWhile body test span => placed do
    let out ← inScope (statement body)
    let test ← lazily (expr test)
    return .doWhile (bodyOf body out) test span
  | .for init test update body span => placed <| inScope do
    let init ← forInit init
    let test ← match test with
      | some e => do
        let e ← lazily (expr e)
        pure (some e)
      | none => pure none
    let update ← match update with
      | some e => do
        let e ← lazily (expr e)
        pure (some e)
      | none => pure none
    let out ← inScope (statement body)
    return .for init test update (bodyOf body out) span
  | .block b => placed do
    return .block (← block b)
  | .break span => return [.break span]
  | .continue span => return [.continue span]
  | .debugger span => return [.debugger span]
  | .empty span => return [.empty span]
  | .function fn => return [.function fn]

/-- Visits the first clause of a `for` statement. Declarations that a later declarator needs cannot
move in front of the loop, where the earlier ones are not bound yet. -/
def forInit : ForInit → Walk ForInit
  | .absent => return .absent
  | .expr e => return .expr (← inPlace (expr e))
  | .declare (.mk kind ds span) => do
    match ds with
    | [] => return .declare (.mk kind [] span)
    | .mk target init dspan :: more =>
      let target ← pattern target
      let init ← match init with
        | some e => do
          let e ← inPlace (expr e)
          pure (some e)
        | none => pure none
      let d ← declarator target init dspan
      let more ← lazyDeclarators more
      return .declare (.mk kind (d :: more) span)

/-- Visits the later declarators of a `for` statement. -/
def lazyDeclarators : List Declarator → Walk (List Declarator)
  | [] => return []
  | .mk target init span :: more => do
    let target ← pattern target
    let init ← match init with
      | some e => do
        let e ← lazily (expr e)
        pure (some e)
      | none => pure none
    let d ← declarator target init span
    return d :: (← lazyDeclarators more)

/-- Visits the declarators of a declaration statement, of which `waiting` have been visited. Where a
declarator needs declarations of its own, the statement is split in front of it. -/
def declaration (kind : DeclKind) (span : Span) (waiting : List Declarator) :
    List Declarator → Walk (List Stmt)
  | [] => return if waiting.isEmpty then [] else [declareStmt kind waiting span]
  | .mk target init dspan :: more => do
    let (d, decls) ← collecting do
      let target ← pattern target
      let init ← match init with
        | some e => do
          let e ← inPlace (expr e)
          pure (some e)
        | none => pure none
      declarator target init dspan
    if !decls.isEmpty && !waiting.isEmpty then
      let out ← declaration kind span [d] more
      return declareStmt kind waiting span :: decls ++ out
    else
      let out ← declaration kind span (waiting ++ [d]) more
      return decls ++ out

end

end Settle

open Settle in
/-- Settles a field body of a field with arguments `args`. -/
def settle (body : Expr) (capabilities : Capabilities) (args : List String) :
    Except GenerateFault Block := do
  let start : State := ⟨Locals.empty.push, false, [], 0, []⟩
  let (out, state) := (inScope (statement (returning body))).run ⟨capabilities, args⟩ |>.run start
  let needed := Prelude.names.filter state.helpers.contains
  let declarations ← needed.mapM Prelude.declaration
  return .mk (declarations ++ out) body.span

end FieldScript
