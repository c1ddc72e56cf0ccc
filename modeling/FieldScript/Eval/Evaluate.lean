import FieldScript.Eval.Builtin
import FieldScript.Eval.Callback

/-!
# Evaluation of bodies

What expressions, patterns and statements do. Evaluation follows the tree. The only ways out of the
tree are calls, which are handed to the function `call` of the context, and the rounds of loops, which
are bounded by `rounds`.

A name is looked for among the variables in scope, the capabilities, the arguments of the field and
the global names, in this order.
-/

namespace FieldScript

/-- What a body runs against. -/
structure Setting where
  capabilities : Capabilities
  api : Api
  /-- The names of the field's arguments. -/
  args : List String
  /-- The object that holds the values of the arguments. -/
  data : ObjectRef

/-- What evaluation runs against. -/
structure Context extends Setting where
  call : Function → List Value → Comp Value
  rounds : Nat

/-- How a statement ends. -/
inductive Completion where
  | normal
  | return (v : Value)
  | break
  | continue

/-- What a pattern does with its names. -/
inductive BindMode where
  /-- Introduces variables. -/
  | declare (constant : Bool)
  /-- Changes variables and properties. -/
  | assign

/-! ## Names -/

namespace Setting

/-- The value of a name. -/
def lookup (c : Setting) (name : String) (scope : Scope) : Act Value := do
  match ← scope.lookup? name with
  | some v => return v
  | none =>
    if c.capabilities.contains name then return .function (.capability name)
    else if c.args.contains name then
      return (((← get).object c.data).lookup name).getD .undefined
    else
      match ← Global.read? name with
      | some v => return v
      | none => Act.raise (.unbound name)

/-- The type of a name's value, where a name that nothing binds counts as undefined. -/
def typeOfName (c : Setting) (name : String) (scope : Scope) : Act Value := do
  try
    return .string (← c.lookup name scope).typeName
  catch halt =>
    match halt with
    | .raised (.unbound _) => return .string Value.undefined.typeName
    | other => throw other

/-- Changes what a name stands for. -/
def assign (c : Setting) (name : String) (value : Value) (scope : Scope) : Act Unit := do
  if ← scope.assign name value then return
  else if c.capabilities.contains name then Act.typeFault (.capabilityAssigned name)
  else if c.args.contains name then modify fun s => s.modifyObject c.data (Entries.set name value)
  else Act.raise (.unbound name)

end Setting

/-- The name of a callee in messages. -/
def Expr.calleeName : Expr → String
  | .identifier name _ => name
  | .member o (.name id) _ _ => o.calleeName ++ "." ++ id.name
  | _ => "expression"

/-! ## Loops -/

/-- How a round of a loop ends. -/
inductive Round (σ α : Type) where
  | again (state : σ)
  | stop (result : α)

/-- Runs rounds until one stops. -/
def Comp.iterate {σ α : Type} (step : σ → Comp (Round σ α)) : Nat → σ → Comp α
  | 0, _ => exhausted
  | rounds + 1, state => do
    match ← step state with
    | .again state => iterate step rounds state
    | .stop result => return result

/-- What follows the body of a loop. -/
def Completion.next {σ : Type} (completion : Completion) (go : Comp (Round σ Completion)) :
    Comp (Round σ Completion) :=
  match completion with
  | .break => return .stop .normal
  | .return v => return .stop (.return v)
  | .normal | .continue => go

/-- A scope for the next round of a loop: its variables start with the values that they have. -/
def Scope.renewed (names : List String) (current parent : Scope) : Act Scope := do
  let next ← parent.child
  for name in names do
    next.declare name ((← current.lookup? name).getD .undefined) false
  return next

/-! ## Evaluation -/

/-- The value at the end of a chain; undefined if it broke off. -/
def orUndefined (x : Comp (Option Value)) : Comp Value := do return (← x).getD .undefined

/-- Parts of a template with the texts of the substitutions between them. -/
def interleave : List TemplatePart → List String → String
  | [], _ => ""
  | part :: parts, [] => part.cooked ++ interleave parts []
  | part :: parts, text :: texts => part.cooked ++ text ++ interleave parts texts

/-- The value of a literal. -/
def LiteralValue.toValue : LiteralValue → Value
  | .number x => .number x
  | .string s => .string s
  | .bool b => .bool b
  | .null => .null

/-- The name of the entry that a literal stands for as a key. -/
def Literal.key (lit : Literal) : String :=
  match lit.value with
  | .string s => s
  | .number x => Number.text x
  | _ => lit.raw

/-- The value before and after a step. -/
def UpdateOp.step (op : UpdateOp) (x : Float) : Float :=
  match op with
  | .increment => x + 1
  | .decrement => x - 1

/-- The names that a declaration introduces. -/
def declaredNames (declarators : List Declarator) : List String :=
  declarators.flatMap fun (.mk target _ _) => target.boundNames

namespace Eval

mutual

/-- The value of an expression; none if an optional link of a chain met nothing. -/
def link (c : Context) : Expr → Scope → Comp (Option Value)
  | .literal lit _, _ => return lit.value.toValue
  | .template parts exprs _, scope => do
    return some (.string (interleave parts (← texts c exprs scope)))
  | .array items _, scope => do return some (← Change.newArray (← values c items scope).toArray)
  | .object props _, scope => do
    return some (← Change.newObject (Entries.setAll [] (← entries c props scope)))
  | .identifier name _, scope => do return some (← c.lookup name scope)
  | .member object key optional _, scope => do
    match ← link c object scope with
    | none => return none
    | some v =>
      if optional && v.isNullish then return none
      else
        let name ← keyName c key scope
        return some (← v.get name)
  | .call callee args optional _, scope => do
    match ← link c callee scope with
    | none => return none
    | some f =>
      if optional && f.isNullish then return none
      else
        let args ← values c args scope
        match f with
        | .function f => return some (← c.call f args)
        | _ => Act.typeFault (.notFunction callee.calleeName)
  | .arrow params body isAsync _, scope => do
    let ref ← (modifyGet fun s => s.addClosure ⟨params, body, isAsync, scope⟩ : Act ClosureRef)
    return some (.function (.closure ref))
  | .function _, _ => Act.typeFault .functionExpression
  | .this _, _ => Act.typeFault .thisExpression
  | .await e _, scope => do return some (← Comp.settle (← orUndefined (link c e scope)))
  | .unary .typeOf (.identifier name _) _, scope => do return some (← c.typeOfName name scope)
  | .unary .delete (.member object key _ _) _, scope => do
    let v ← orUndefined (link c object scope)
    let name ← keyName c key scope
    v.erase name
    return some (.bool true)
  | .unary .delete _ _, _ => return some (.bool true)
  | .unary op e _, scope => do
    let v ← orUndefined (link c e scope)
    return some (← op.apply v)
  | .update op before target _, scope => do
    let old ← (← current c target scope).toNumber
    let new := op.step old
    bindPattern c target (.number new) .assign scope
    return some (.number (if before then new else old))
  | .binary op left right _, scope => do
    let a ← orUndefined (link c left scope)
    let b ← orUndefined (link c right scope)
    return some (← op.apply a b)
  | .logical op left right _, scope => do
    let a ← orUndefined (link c left scope)
    if op.isDecided a then return some a else return some (← orUndefined (link c right scope))
  | .conditional test yes no _, scope => do
    if (← orUndefined (link c test scope)).isTruthy then
      return some (← orUndefined (link c yes scope))
    else return some (← orUndefined (link c no scope))
  | .assign .assign target e _, scope => do
    let v ← orUndefined (link c e scope)
    bindPattern c target v .assign scope
    return some v
  | .assign (.binary op) target e _, scope => do
    let a ← current c target scope
    let b ← orUndefined (link c e scope)
    let v ← op.apply a b
    bindPattern c target v .assign scope
    return some v
  | .assign (.logical op) target e _, scope => do
    let a ← current c target scope
    if op.isDecided a then return some a
    else
      let v ← orUndefined (link c e scope)
      bindPattern c target v .assign scope
      return some v
  | .sequence exprs _, scope => do return some (← last c exprs scope)

/-- The value of the last of several expressions. -/
def last (c : Context) : List Expr → Scope → Comp Value
  | [], _ => return .undefined
  | [e], scope => orUndefined (link c e scope)
  | e :: rest, scope => do
    let _ ← link c e scope
    last c rest scope

/-- The texts of expressions. -/
def texts (c : Context) : List Expr → Scope → Comp (List String)
  | [], _ => return []
  | e :: rest, scope => do
    let text ← (← orUndefined (link c e scope)).toText
    return text :: (← texts c rest scope)

/-- The values of elements or arguments. -/
def values (c : Context) : List Item → Scope → Comp (List Value)
  | [], _ => return []
  | .expr e :: rest, scope => do
    let v ← orUndefined (link c e scope)
    return v :: (← values c rest scope)
  | .spread e :: rest, scope => do
    let vs ← (← orUndefined (link c e scope)).elements
    return vs ++ (← values c rest scope)
  | .hole :: rest, scope => do return .undefined :: (← values c rest scope)

/-- The entries that properties set, one after another. -/
def entries (c : Context) : List Property → Scope → Comp (List (String × Value))
  | [], _ => return []
  | .init key e _ _ :: rest, scope => do
    let name ← keyName c key scope
    let v ← orUndefined (link c e scope)
    return (name, v) :: (← entries c rest scope)
  | .spread e :: rest, scope => do
    let es ← (← orUndefined (link c e scope)).ownEntries
    return es ++ (← entries c rest scope)

/-- The name that a key stands for. -/
def keyName (c : Context) : Key → Scope → Comp String
  | .name id, _ => return id.name
  | .literal lit, _ => return lit.key
  | .computed e, scope => do (← orUndefined (link c e scope)).toKey

/-- The value that the target of an assignment has. -/
def current (c : Context) : Pattern → Scope → Comp Value
  | .ident id, scope => c.lookup id.name scope
  | .member e, scope => orUndefined (link c e scope)
  | _, _ => Act.typeFault .assignmentTarget

/-- Binds the names of a pattern to the parts of a value. -/
def bindPattern (c : Context) : Pattern → Value → BindMode → Scope → Comp Unit
  | .ident id, v, .declare constant, scope => scope.declare id.name v constant
  | .ident id, v, .assign, scope => c.assign id.name v scope
  | .assign target default, v, mode, scope => do
    match v with
    | .undefined => do
      let v ← orUndefined (link c default scope)
      bindPattern c target v mode scope
    | v => bindPattern c target v mode scope
  | .array elements _, v, mode, scope => do
    let items ← v.elements
    bindElements c elements items mode scope
  | .object props _, v, mode, scope => do
    if v.isNullish then Act.typeFault (.destructureOfNothing (← v.toText))
    else bindEntries c props v [] mode scope
  | .rest target, v, mode, scope => bindPattern c target v mode scope
  | .member _, _, .declare _, _ => Act.typeFault .destructuringTarget
  | .member (.member object key _ _), v, .assign, scope => do
    let o ← orUndefined (link c object scope)
    let name ← keyName c key scope
    o.set name v
  | .member _, _, .assign, _ => Act.typeFault .assignmentTarget
  | .hole, _, _, _ => return

/-- Binds patterns to values one after another. A rest pattern takes all values from its position
on, and values that are missing are undefined. -/
def bindElements (c : Context) : List Pattern → List Value → BindMode → Scope → Comp Unit
  | [], _, _, _ => return
  | .rest target :: patterns, items, mode, scope => do
    let rest ← Change.newArray items.toArray
    bindPattern c target rest mode scope
    bindElements c patterns (items.drop 1) mode scope
  | pattern :: patterns, items, mode, scope => do
    bindPattern c pattern (items.head?.getD .undefined) mode scope
    bindElements c patterns (items.drop 1) mode scope

/-- Binds the entries of an object pattern. A rest entry takes the entries that were not `used`. -/
def bindEntries (c : Context) :
    List PatternProp → Value → List String → BindMode → Scope → Comp Unit
  | [], _, _, _, _ => return
  | .init key target _ :: props, v, used, mode, scope => do
    let name ← keyName c key scope
    let item ← v.get name
    bindPattern c target item mode scope
    bindEntries c props v (name :: used) mode scope
  | .rest target :: props, v, used, mode, scope => do
    let entries ← v.ownEntries
    let rest ← Change.newObject (entries.filter fun (name, _) => !used.contains name)
    bindPattern c target rest mode scope
    bindEntries c props v used mode scope

/-- Runs a statement. -/
def stmt (c : Context) : Stmt → Scope → Comp Completion
  | .expr e _, scope => do
    let _ ← link c e scope
    return .normal
  | .declare decl _, scope => do
    declare c decl scope
    return .normal
  | .return none _, _ => return .return .undefined
  | .return (some e) _, scope => do return .return (← orUndefined (link c e scope))
  | .cond test yes no _, scope => do
    if (← orUndefined (link c test scope)).isTruthy then stmt c yes scope
    else
      match no with
      | some no => stmt c no scope
      | none => return .normal
  | .while test body _, scope =>
    Comp.iterate (fun () => do
      if (← orUndefined (link c test scope)).isTruthy then
        (← stmt c body scope).next (return .again ())
      else return .stop .normal) c.rounds ()
  | .doWhile body test _, scope =>
    Comp.iterate (fun () => do
      (← stmt c body scope).next do
        if (← orUndefined (link c test scope)).isTruthy then return .again ()
        else return .stop .normal) c.rounds ()
  | .for init test update body _, scope => do
    let start ← scope.child
    let names ← forInit c init start
    Comp.iterate (fun current => do
      if ← holds c test current then
        (← stmt c body current).next do
          let next ← if names.isEmpty then pure current else current.renewed names scope
          discardValue c update next
          return .again next
      else return .stop .normal) c.rounds start
  | .block b, scope => block c b scope
  | .break _, _ => return .break
  | .continue _, _ => return .continue
  | .debugger _, _ => return .normal
  | .empty _, _ => return .normal
  | .function _, _ => Act.typeFault .functionDeclaration

/-- Runs the statements of a block in a scope of its own. -/
def block (c : Context) : Block → Scope → Comp Completion
  | .mk statements _, scope => do
    let inner ← scope.child
    stmts c statements inner

/-- Runs statements until one does not end normally. -/
def stmts (c : Context) : List Stmt → Scope → Comp Completion
  | [], _ => return .normal
  | s :: rest, scope => do
    match ← stmt c s scope with
    | .normal => stmts c rest scope
    | other => return other

/-- Whether the test of a loop holds; a test that is left out does. -/
def holds (c : Context) : Option Expr → Scope → Comp Bool
  | none, _ => return true
  | some e, scope => do return (← orUndefined (link c e scope)).isTruthy

/-- Evaluates an expression that may be left out. -/
def discardValue (c : Context) : Option Expr → Scope → Comp Unit
  | none, _ => return
  | some e, scope => do
    let _ ← link c e scope

/-- Runs the first clause of a loop; the names that each round gets anew. -/
def forInit (c : Context) : ForInit → Scope → Comp (List String)
  | .absent, _ => return []
  | .declare (.mk kind declarators _), scope => do
    declarations c (kind == .const) declarators scope
    return if kind == .let then declaredNames declarators else []
  | .expr e, scope => do
    let _ ← link c e scope
    return []

/-- Runs a declaration. -/
def declare (c : Context) : VarDecl → Scope → Comp Unit
  | .mk kind declarators _, scope => declarations c (kind == .const) declarators scope

/-- Runs the parts of a declaration. -/
def declarations (c : Context) (constant : Bool) : List Declarator → Scope → Comp Unit
  | [], _ => return
  | .mk target none _ :: rest, scope => do
    bindPattern c target .undefined (.declare constant) scope
    declarations c constant rest scope
  | .mk target (some e) _ :: rest, scope => do
    let v ← orUndefined (link c e scope)
    bindPattern c target v (.declare constant) scope
    declarations c constant rest scope

end

end Eval

/-- The value of an expression. -/
def Expr.eval (c : Context) (e : Expr) (scope : Scope) : Comp Value := orUndefined (Eval.link c e scope)

/-- Runs an arrow function in a new scope. -/
def Closure.run (c : Context) (closure : Closure) (args : List Value) : Comp Value := do
  let scope ← closure.scope.child
  Eval.bindElements c closure.params args (.declare false) scope
  match closure.body with
  | .expr e => e.eval c scope
  | .block b =>
    match ← Eval.block c b scope with
    | .return v => return v
    | _ => return .undefined

end FieldScript
