import FieldScript.Eval.Evaluate

/-!
# Calls

What calling a function does, and what runs on its own behind a promise. Calls within calls are
bounded by a number of levels.
-/

namespace FieldScript

/-- Calls an external function. It is called at once; the answer of an asynchronous one comes as a
promise. -/
def Setting.callCapability (c : Setting) (name : String) (args : List Value) : Comp Value := do
  match c.api.get? name with
  | none => Act.typeFault (.notFunction ("$api." ++ name))
  | some f =>
    let documents ← (args.mapM Value.toDocument : Act (List Json))
    let journal := (← (get : Act Store)).journal
    let id := journal.calls
    let response := f.respond (journal.callsOf c.api.owner name) documents
    (modify fun s =>
      { s with journal := s.journal.record (.call id c.api.owner name documents) } : Act Unit)
    if f.isAsync then return .promise (← Comp.spawn (.host id response))
    else
      match response.result with
      | .ok j => Value.ofJson j
      | .error j => do Act.raise (.thrown (← Value.ofJson j))

/-- Calls a method. -/
def BoundMethod.call (invoke : Function → List Value → Comp Value) (m : BoundMethod)
    (args : List Value) : Comp Value :=
  match m with
  | .text s m => m.call s args
  | .number x m => m.call x args
  | .array a m => m.call a args
  | .callback a m => m.call invoke a args
  | .promise p .andThen => do
    return .promise (← Comp.spawn (.job (.chain p (argument args 0) (argument args 1))))
  | .promise p .orElse => do
    return .promise (← Comp.spawn (.job (.chain p .undefined (argument args 0))))

/-- The function that a reference stands for. -/
def Act.closure (ref : ClosureRef) : Act Closure := do
  match (← get).closure? ref with
  | some closure => return closure
  | none => Act.typeFault (.notFunction "anonymous")

/-- Calls a function. An asynchronous one runs on its own behind a promise. -/
def Setting.callFunction (c : Setting) (rounds : Nat) : Nat → Function → List Value → Comp Value
  | 0, _, _ => Comp.exhausted
  | levels + 1, f, args => do
    let invoke := c.callFunction rounds levels
    match f with
    | .closure ref =>
      let closure ← Act.closure ref
      if closure.isAsync then return .promise (← Comp.spawn (.job (.closure ref args)))
      else closure.run { c with call := invoke, rounds := rounds } args
    | .builtin b => b.call args
    | .method m => m.call invoke args
    | .capability name => c.callCapability name args

/-- The context of evaluation with a bound on the levels of calls and on the rounds of loops. -/
def Setting.context (c : Setting) (fuel : Nat) : Context :=
  { c with call := c.callFunction fuel fuel, rounds := fuel }

/-- What a handler makes of an outcome. What is no function lets the outcome pass. -/
def Context.handle (c : Context) (handler : Value) (outcome : Settled) : Comp Value :=
  match handler, outcome with
  | .function f, .fulfilled v => do Comp.settle (← c.call f [v])
  | .function f, .rejected v => do Comp.settle (← c.call f [v])
  | _, .fulfilled v => return v
  | _, .rejected v => Act.raise (.thrown v)

/-- What runs on its own behind a promise. -/
def Context.runJob (c : Context) : Job → Comp Value
  | .closure ref args => do
    let closure ← Act.closure ref
    Comp.settle (← closure.run c args)
  | .chain source onFulfilled onRejected => do
    match ← Comp.await source with
    | .fulfilled v => c.handle onFulfilled (.fulfilled v)
    | .rejected v => c.handle onRejected (.rejected v)

/-- The value of a block that returns one. -/
def Context.runBody (c : Context) (body : Block) : Comp Value := do
  let frame ← Scope.child []
  match ← Eval.block c body frame with
  | .return v => Comp.settle v
  | _ => return .undefined

end FieldScript
