import FieldScript.Proofs.Eval.Links

/-!
# Properties that bodies inherit

What an expression does is put together from actions that change no variable, from assignments, from waiting, from
calls, and from functions that are made in the scope at hand. Statements and functions declare variables besides, and
they add frames. A property of computations in a scope that holds of these, and that putting computations together
keeps, holds of all that bodies do.

* `Comp.Evaluated`: such a property of what expressions do.
* `Comp.Inherited`: such a property of what bodies do. Where a frame is added, what comes behind runs in the scope with
  that frame.
* `Context.Evaluated`, `Context.Inherited`: the property holds of the calls that a context makes, too.
* One rule per way to put computations together, and one case per kind of tree: `Eval.link_inherits` to
  `Eval.stmts_inherits`. Binding a pattern has the property if binding a name has (`Eval.bindPattern_inherits`).
* `Closure.run_inherits`, `BoundMethod.call_inherits`, `Builtin.call_inherits` and `Context.runJob_chain_inherits`: the
  functions that a body calls, and what it leaves to run on its own.
-/

namespace FieldScript

/-- A property of computations, by the scope in which they run, that passes to all that expressions do. -/
structure Comp.Evaluated (P : {α : Type} → Scope → Comp α → Prop) : Prop where
  pure : ∀ {α : Type} {scope : Scope} (a : α), P scope (Pure.pure a)
  bind : ∀ {α β : Type} {scope : Scope} {x : Comp α} {f : α → Comp β},
    P scope x → (∀ a, P scope (f a)) → P scope (x >>= f)
  /-- An action that changes no variable. -/
  act : ∀ {α : Type} {scope : Scope} {x : Act α}, x.Local [] → P scope (Comp.ofAct x)
  assign : ∀ {scope : Scope} (c : Setting) (name : String) (v : Value), P scope (Comp.ofAct (c.assign name v scope))
  await : ∀ {scope : Scope} (p : PromiseRef), P scope (Comp.await p)
  promise : ∀ {scope : Scope} (task : Task), (∀ id response, task ≠ .host id response) →
    P scope (do return Value.promise (← Comp.spawn task))
  exhausted : ∀ {α : Type} {scope : Scope}, P scope (Comp.exhausted : Comp α)
  /-- A function is made with the scope at hand. -/
  arrow : ∀ {scope : Scope} (closure : Closure), closure.scope = scope →
    P scope (Comp.ofAct (modifyGet fun s => s.addClosure closure))

/-- A property of computations, by the scope in which they run, that passes to all that bodies do. -/
structure Comp.Inherited (P : {α : Type} → Scope → Comp α → Prop) : Prop extends Comp.Evaluated P where
  declare : ∀ {scope : Scope} (name : String) (v : Value) (constant : Bool),
    P scope (Comp.ofAct (scope.declare name v constant))
  /-- A computation behind a new frame. -/
  child : ∀ {α : Type} {scope : Scope} {k : Scope → Comp α}, (∀ f, P (f :: scope) (k (f :: scope))) →
    P scope (Comp.ofAct scope.child >>= k)
  /-- A computation behind a new frame for the variables of a loop. It does not need the frames that the loop itself is
  not in the scope of. -/
  renewed : ∀ {α : Type} {scope inner : Scope} {k : Scope → Comp α} (names : List String) (current : Scope),
    scope <:+ inner → (∀ f, P (f :: scope) (k (f :: scope))) →
      P inner (Comp.ofAct (current.renewed names scope) >>= k)

/-- A context that makes calls with a property of what expressions do. -/
structure Context.Evaluated (P : {α : Type} → Scope → Comp α → Prop) (c : Context) : Prop extends Comp.Evaluated P where
  call : ∀ scope f args, P scope (c.call f args)

/-- A context that makes calls with a property of what bodies do. -/
structure Context.Inherited (P : {α : Type} → Scope → Comp α → Prop) (c : Context) : Prop extends Comp.Inherited P where
  call : ∀ scope f args, P scope (c.call f args)

theorem Context.Inherited.evaluated {P : {α : Type} → Scope → Comp α → Prop} {c : Context} (h : c.Inherited P) :
    c.Evaluated P :=
  { h.toEvaluated with call := h.call }

/-! ## Rules -/

namespace Comp.Evaluated

variable {P : {α : Type} → Scope → Comp α → Prop} (h : Evaluated P) {α : Type} {scope : Scope}

include h

theorem change {x : Change α} (hx : x.Local []) : P scope (liftM x : Comp α) := h.act (.lift hx)

theorem fault (fault : TypeFault) : P scope (ofAct (Act.typeFault fault) : Comp α) := h.act (.raise _)

theorem settle (v : Value) : P scope (settle v) := by
  cases v with
  | promise p =>
      refine h.bind (h.await p) fun outcome => ?_
      cases outcome with
      | fulfilled v => exact h.pure v
      | rejected v => exact h.act (.raise _)
  | _ => exact h.pure _

theorem iterate {σ : Type} {step : σ → Comp (Round σ α)} (hstep : ∀ state, P scope (step state)) (rounds : Nat)
    (state : σ) : P scope (iterate step rounds state) := by
  induction rounds generalizing state with
  | zero => exact h.exhausted
  | succ rounds ih =>
      refine h.bind (hstep state) fun round => ?_
      cases round with
      | again state => exact ih state
      | stop result => exact h.pure result

theorem orUndefined {x : Comp (Option Value)} (hx : P scope x) : P scope (orUndefined x) := h.bind hx fun _ => h.pure _

theorem next {σ : Type} (completion : Completion) {go : Comp (Round σ Completion)} (hgo : P scope go) :
    P scope (completion.next go) := by
  cases completion with
  | «break» | «return» v => exact h.pure _
  | normal | «continue» => exact hgo

end Comp.Evaluated

/-! ## Trees -/

namespace Eval

variable {P : {α : Type} → Scope → Comp α → Prop} {c : Context}

/-- An assignment to a name. -/
theorem assignName_inherits (h : c.Evaluated P) (scope : Scope) (id : Ident) (v : Value) :
    P scope (bindPattern c (.ident id) v .assign scope) := by
  rw [bindPattern]
  exact h.assign c.toSetting id.name v

/-- The declaration of a name. -/
theorem declareName_inherits (h : c.Inherited P) (constant : Bool) (scope : Scope) (id : Ident) (v : Value) :
    P scope (bindPattern c (.ident id) v (.declare constant) scope) := by
  rw [bindPattern]
  exact h.declare id.name v constant

mutual

theorem link_inherits (h : c.Evaluated P) (e : Expr) (scope : Scope) : P scope (link c e scope) := by
  match e with
  | .literal lit span => rw [link]; exact h.pure _
  | .template parts es span => rw [link]; exact h.bind (texts_inherits h es scope) fun _ => h.pure _
  | .array items span =>
      rw [link]
      exact h.bind (values_inherits h items scope) fun vs =>
        h.bind (h.change (Change.newArray_local _)) fun _ => h.pure _
  | .object props span =>
      rw [link]
      exact h.bind (entries_inherits h props scope) fun es =>
        h.bind (h.change (Change.newObject_local _)) fun _ => h.pure _
  | .identifier name span => rw [link]; exact h.bind (h.act (c.lookup_local name scope)) fun _ => h.pure _
  | .member o key optional span =>
      rw [link]
      refine h.bind (link_inherits h o scope) fun v? => ?_
      cases v? with
      | none => exact h.pure _
      | some v =>
          dsimp only
          split
          · exact h.pure _
          · exact h.bind (keyName_inherits h key scope) fun name => h.bind (h.act (v.get_local name)) fun _ => h.pure _
  | .call callee args optional span =>
      rw [link]
      refine h.bind (link_inherits h callee scope) fun f? => ?_
      cases f? with
      | none => exact h.pure _
      | some f =>
          dsimp only
          split
          · exact h.pure _
          · refine h.bind (values_inherits h args scope) fun vs => ?_
            split
            · exact h.bind (h.call scope _ vs) fun _ => h.pure _
            · exact h.fault _
  | .arrow params body isAsync span =>
      rw [link]
      exact h.bind (h.arrow ⟨params, body, isAsync, scope⟩ rfl) fun _ => h.pure _
  | .function fn => rw [link]; exact h.fault _
  | .this span => rw [link]; exact h.fault _
  | .await e span =>
      rw [link]
      exact h.bind (h.orUndefined (link_inherits h e scope)) fun v =>
        h.bind (h.settle v) fun _ => h.pure _
  | .unary op e span =>
      by_cases hdelete : op = .delete
      · subst hdelete
        have hparts := member_inherits h e scope
        by_cases hoperand : ∃ o k optional ospan, e = .member o k optional ospan
        · obtain ⟨o, k, optional, ospan, rfl⟩ := hoperand
          obtain ⟨ho, hk⟩ := hparts o k optional ospan rfl
          rw [link]
          exact h.bind (h.orUndefined ho) fun v => h.bind hk fun name =>
            h.bind (h.act (v.erase_local name)) fun _ => h.pure _
        · rw [link_delete c scope span fun o k optional ospan he => hoperand ⟨o, k, optional, ospan, he⟩]
          exact h.pure _
      · by_cases hname : op = .typeOf ∧ ∃ name ispan, e = .identifier name ispan
        · obtain ⟨rfl, name, ispan, rfl⟩ := hname
          rw [link]
          exact h.bind (h.act (c.typeOfName_local name scope)) fun _ => h.pure _
        · rw [link_unary c scope span (fun hop name ispan he => hname ⟨hop, name, ispan, he⟩) hdelete]
          exact h.bind (h.orUndefined (link_inherits h e scope)) fun v =>
            h.bind (h.act (op.apply_local v)) fun _ => h.pure _
  | .update op before target span =>
      rw [link]
      exact h.bind (current_inherits h target scope) fun v => h.bind (h.act v.toNumber_local) fun _ =>
        h.bind (bindPattern_inherits h (assignName_inherits h scope) target _) fun _ => h.pure _
  | .binary op l r span =>
      rw [link]
      exact h.bind (h.orUndefined (link_inherits h l scope)) fun a =>
        h.bind (h.orUndefined (link_inherits h r scope)) fun b => h.bind (h.act (op.apply_local a b)) fun _ => h.pure _
  | .logical op l r span =>
      rw [link]
      refine h.bind (h.orUndefined (link_inherits h l scope)) fun a => ?_
      split
      · exact h.pure _
      · exact h.bind (h.orUndefined (link_inherits h r scope)) fun _ => h.pure _
  | .conditional test yes no span =>
      rw [link]
      refine h.bind (h.orUndefined (link_inherits h test scope)) fun a => ?_
      split
      · exact h.bind (h.orUndefined (link_inherits h yes scope)) fun _ => h.pure _
      · exact h.bind (h.orUndefined (link_inherits h no scope)) fun _ => h.pure _
  | .assign .assign target e span =>
      rw [link]
      exact h.bind (h.orUndefined (link_inherits h e scope)) fun v =>
        h.bind (bindPattern_inherits h (assignName_inherits h scope) target v) fun _ => h.pure _
  | .assign (.binary op) target e span =>
      rw [link]
      exact h.bind (current_inherits h target scope) fun a => h.bind (h.orUndefined (link_inherits h e scope)) fun b =>
        h.bind (h.act (op.apply_local a b)) fun v =>
          h.bind (bindPattern_inherits h (assignName_inherits h scope) target v) fun _ => h.pure _
  | .assign (.logical op) target e span =>
      rw [link]
      refine h.bind (current_inherits h target scope) fun a => ?_
      split
      · exact h.pure _
      · exact h.bind (h.orUndefined (link_inherits h e scope)) fun v =>
          h.bind (bindPattern_inherits h (assignName_inherits h scope) target v) fun _ => h.pure _
  | .sequence es span => rw [link]; exact h.bind (last_inherits h es scope) fun _ => h.pure _
termination_by structural e

/-- The parts of a member that is deleted or assigned to. -/
theorem member_inherits (h : c.Evaluated P) (e : Expr) (scope : Scope) (o : Expr) (k : Key) (optional : Bool)
    (span : Span) (he : e = .member o k optional span) :
    P scope (link c o scope) ∧ P scope (keyName c k scope) := by
  cases e with
  | member o' k' optional' span' =>
      have hobject := link_inherits h o' scope
      have hkey := keyName_inherits h k' scope
      cases he
      exact ⟨hobject, hkey⟩
  | _ => cases he
termination_by structural e

theorem last_inherits (h : c.Evaluated P) (es : List Expr) (scope : Scope) : P scope (last c es scope) := by
  match es with
  | [] => rw [last]; exact h.pure _
  | [e] => rw [last]; exact (h.orUndefined (link_inherits h e scope))
  | e :: next :: rest =>
      rw [last_cons]
      exact h.bind (h.orUndefined (link_inherits h e scope)) fun _ => last_inherits h (next :: rest) scope
termination_by structural es

theorem texts_inherits (h : c.Evaluated P) (es : List Expr) (scope : Scope) : P scope (texts c es scope) := by
  match es with
  | [] => rw [texts]; exact h.pure _
  | e :: rest =>
      rw [texts]
      exact h.bind (h.orUndefined (link_inherits h e scope)) fun v => h.bind (h.act v.toText_local) fun _ =>
        h.bind (texts_inherits h rest scope) fun _ => h.pure _
termination_by structural es

theorem values_inherits (h : c.Evaluated P) (items : List Item) (scope : Scope) : P scope (values c items scope) := by
  match items with
  | [] => rw [values]; exact h.pure _
  | .expr e :: rest =>
      rw [values]
      exact h.bind (h.orUndefined (link_inherits h e scope)) fun v =>
        h.bind (values_inherits h rest scope) fun _ => h.pure _
  | .spread e :: rest =>
      rw [values]
      exact h.bind (h.orUndefined (link_inherits h e scope)) fun v => h.bind (h.act v.elements_local) fun _ =>
        h.bind (values_inherits h rest scope) fun _ => h.pure _
  | .hole :: rest => rw [values]; exact h.bind (values_inherits h rest scope) fun _ => h.pure _
termination_by structural items

theorem entries_inherits (h : c.Evaluated P) (props : List Property) (scope : Scope) :
    P scope (entries c props scope) := by
  match props with
  | [] => rw [entries]; exact h.pure _
  | .init key e shorthand span :: rest =>
      rw [entries]
      exact h.bind (keyName_inherits h key scope) fun _ => h.bind (h.orUndefined (link_inherits h e scope)) fun _ =>
        h.bind (entries_inherits h rest scope) fun _ => h.pure _
  | .spread e :: rest =>
      rw [entries]
      exact h.bind (h.orUndefined (link_inherits h e scope)) fun v => h.bind (h.act v.ownEntries_local) fun _ =>
        h.bind (entries_inherits h rest scope) fun _ => h.pure _
termination_by structural props

theorem keyName_inherits (h : c.Evaluated P) (key : Key) (scope : Scope) : P scope (keyName c key scope) := by
  match key with
  | .name id => rw [keyName]; exact h.pure _
  | .literal lit => rw [keyName]; exact h.pure _
  | .computed e =>
      rw [keyName]
      exact h.bind (h.orUndefined (link_inherits h e scope)) fun v => h.act v.toText_local
termination_by structural key

theorem current_inherits (h : c.Evaluated P) (p : Pattern) (scope : Scope) : P scope (current c p scope) := by
  match p with
  | .ident id => rw [current]; exact h.act (c.lookup_local id.name scope)
  | .member e => rw [current]; exact (h.orUndefined (link_inherits h e scope))
  | .assign .. | .array .. | .object .. | .rest .. | .hole => exact h.fault _
termination_by structural p

/-- Where binding a name has the property, binding a pattern has it. -/
theorem bindPattern_inherits (h : c.Evaluated P) {mode : BindMode} {scope : Scope}
    (hname : ∀ id v, P scope (bindPattern c (.ident id) v mode scope)) (p : Pattern) (v : Value) :
    P scope (bindPattern c p v mode scope) := by
  match p with
  | .ident id => exact hname id v
  | .assign target default =>
      by_cases hv : v = .undefined
      · rw [hv, bindPattern_undefined]
        exact h.bind (h.orUndefined (link_inherits h default scope)) fun v => bindPattern_inherits h hname target v
      · rw [bindPattern_defined c scope target default mode hv]
        exact bindPattern_inherits h hname target v
  | .array elements span =>
      rw [bindPattern]
      exact h.bind (h.act v.elements_local) fun items => bindElements_inherits h hname elements items
  | .object props span =>
      rw [bindPattern]
      split
      · exact h.bind (h.act v.toText_local) fun _ => h.fault _
      · exact bindEntries_inherits h hname props v []
  | .rest target => rw [bindPattern]; exact bindPattern_inherits h hname target v
  | .member e =>
      cases mode with
      | declare constant => rw [bindPattern]; exact h.fault _
      | assign =>
          have hparts := member_inherits h e scope
          by_cases he : ∃ o k optional span, e = .member o k optional span
          · obtain ⟨o, k, optional, span, rfl⟩ := he
            obtain ⟨ho, hk⟩ := hparts o k optional span rfl
            rw [bindPattern]
            exact h.bind (h.orUndefined ho) fun object => h.bind hk fun name => h.act (object.set_local name v)
          · rw [bindPattern]
            · exact h.fault _
            · exact fun o k optional span hmember => he ⟨o, k, optional, span, hmember⟩
  | .hole => rw [bindPattern]; exact h.pure _
termination_by structural p

/-- The target of a rest pattern. -/
theorem rest_inherits (h : c.Evaluated P) {mode : BindMode} {scope : Scope}
    (hname : ∀ id v, P scope (bindPattern c (.ident id) v mode scope)) (p target : Pattern) (hp : p = .rest target)
    (v : Value) : P scope (bindPattern c target v mode scope) := by
  cases p with
  | rest target' =>
      have htarget := bindPattern_inherits h hname target' v
      cases hp
      exact htarget
  | _ => cases hp
termination_by structural p

theorem bindElements_inherits (h : c.Evaluated P) {mode : BindMode} {scope : Scope}
    (hname : ∀ id v, P scope (bindPattern c (.ident id) v mode scope)) (ps : List Pattern) (items : List Value) :
    P scope (bindElements c ps items mode scope) := by
  match ps with
  | [] => rw [bindElements]; exact h.pure _
  | p :: ps =>
      have htarget := rest_inherits h hname p
      by_cases hrest : ∃ target, p = .rest target
      · obtain ⟨target, rfl⟩ := hrest
        rw [bindElements]
        exact h.bind (h.change (Change.newArray_local _)) fun rest =>
          h.bind (htarget target rfl rest) fun _ => bindElements_inherits h hname ps _
      · rw [bindElements_cons c scope fun target hp => hrest ⟨target, hp⟩]
        exact h.bind (bindPattern_inherits h hname p _) fun _ => bindElements_inherits h hname ps _
termination_by structural ps

theorem bindEntries_inherits (h : c.Evaluated P) {mode : BindMode} {scope : Scope}
    (hname : ∀ id v, P scope (bindPattern c (.ident id) v mode scope)) (props : List PatternProp) (v : Value)
    (used : List String) : P scope (bindEntries c props v used mode scope) := by
  match props with
  | [] => rw [bindEntries]; exact h.pure _
  | .init key target span :: props =>
      rw [bindEntries]
      exact h.bind (keyName_inherits h key scope) fun name => h.bind (h.act (v.get_local name)) fun item =>
        h.bind (bindPattern_inherits h hname target item) fun _ =>
          bindEntries_inherits h hname props v (name :: used)
  | .rest target :: props =>
      rw [bindEntries]
      exact h.bind (h.act v.ownEntries_local) fun es => h.bind (h.change (Change.newObject_local _)) fun rest =>
        h.bind (bindPattern_inherits h hname target rest) fun _ => bindEntries_inherits h hname props v used
termination_by structural props

end

theorem holds_inherits (h : c.Evaluated P) (test : Option Expr) (scope : Scope) : P scope (holds c test scope) := by
  cases test with
  | none => rw [holds]; exact h.pure _
  | some e => rw [holds]; exact h.bind (h.orUndefined (link_inherits h e scope)) fun _ => h.pure _

theorem discardValue_inherits (h : c.Evaluated P) (e? : Option Expr) (scope : Scope) :
    P scope (discardValue c e? scope) := by
  cases e? with
  | none => rw [discardValue]; exact h.pure _
  | some e => rw [discardValue]; exact h.bind (link_inherits h e scope) fun _ => h.pure _

theorem declarations_inherits (h : c.Inherited P) (constant : Bool) (ds : List Declarator) (scope : Scope) :
    P scope (declarations c constant ds scope) := by
  induction ds with
  | nil => rw [declarations]; exact h.pure _
  | cons d ds ih =>
      obtain ⟨target, init?, span⟩ := d
      cases init? with
      | none =>
          rw [declarations]
          exact h.bind (bindPattern_inherits h.evaluated (declareName_inherits h constant scope) target _) fun _ => ih
      | some e =>
          rw [declarations]
          exact h.bind (h.orUndefined (link_inherits h.evaluated e scope)) fun v =>
            h.bind (bindPattern_inherits h.evaluated (declareName_inherits h constant scope) target v) fun _ => ih

theorem forInit_inherits (h : c.Inherited P) (init : ForInit) (scope : Scope) : P scope (forInit c init scope) := by
  cases init with
  | absent => rw [forInit]; exact h.pure _
  | declare d =>
      obtain ⟨kind, ds, span⟩ := d
      rw [forInit]
      exact h.bind (declarations_inherits h _ ds scope) fun _ => h.pure _
  | expr e => rw [forInit]; exact h.bind (link_inherits h.evaluated e scope) fun _ => h.pure _

theorem turn_inherits (h : c.Inherited P) {l : Loop} (hbody : ∀ scope, P scope (stmt c l.body scope))
    (current : Scope) : P current (l.turn c current) := by
  refine h.bind (holds_inherits h.evaluated l.test current) fun go => ?_
  split
  · exact h.bind (hbody current) fun _ => h.pure _
  · exact h.pure _

/-- The next round has a new frame in front of the scope of the loop, and does not need the frame of this one. -/
theorem reopen_inherits_inside (h : c.Inherited P) {l : Loop} (hnames : l.names ≠ []) {α : Type} {k : Scope → Comp α}
    (hk : ∀ g, P (g :: l.scope) (k (g :: l.scope))) (current : Scope) {inner : Scope} (hinner : l.scope <:+ inner) :
    P inner (l.reopen c current >>= k) := by
  have hsome : l.names.isEmpty = false := by simpa using hnames
  unfold Loop.reopen
  rw [if_neg (by simp [hsome]), bind_assoc]
  refine h.renewed l.names current hinner fun g => ?_
  rw [bind_assoc]
  exact h.bind (discardValue_inherits h.evaluated l.update _) fun _ => by rw [pure_bind]; exact hk g

theorem reopen_inherits (h : c.Inherited P) {l : Loop} (hnames : l.names ≠ []) {α : Type} {k : Scope → Comp α}
    (hk : ∀ g, P (g :: l.scope) (k (g :: l.scope))) (current : Scope) : P l.scope (l.reopen c current >>= k) :=
  reopen_inherits_inside h hnames hk current (List.suffix_refl l.scope)

/-- Each round runs in the scope of the loop with a frame of its own, or with the one of the round before. -/
theorem rounds_inherits (h : c.Inherited P) {l : Loop} (hbody : ∀ scope, P scope (stmt c l.body scope)) (n : Nat)
    (f : FrameRef) : P (f :: l.scope) (l.rounds c n (f :: l.scope)) := by
  induction n generalizing f with
  | zero => exact h.exhausted
  | succ n ih =>
      have hlater : P (f :: l.scope) (l.reopen c (f :: l.scope) >>= l.rounds c n) := by
        by_cases hnames : l.names = []
        · unfold Loop.reopen
          rw [if_pos (by simp [hnames]), pure_bind, bind_assoc]
          exact h.bind (discardValue_inherits h.evaluated l.update _) fun _ => by rw [pure_bind]; exact ih f
        · exact reopen_inherits_inside h hnames ih _ (List.suffix_cons f l.scope)
      refine h.bind (turn_inherits h hbody _) fun completion? => ?_
      split
      · exact h.pure _
      · exact h.pure _
      · exact h.pure _
      · exact hlater
      · exact hlater

mutual

theorem stmt_inherits (h : c.Inherited P) (st : Stmt) (scope : Scope) : P scope (stmt c st scope) := by
  match st with
  | .expr e span => rw [stmt]; exact h.bind (link_inherits h.evaluated e scope) fun _ => h.pure _
  | .declare (.mk kind ds dspan) span =>
      rw [stmt, declare]
      exact h.bind (declarations_inherits h _ ds scope) fun _ => h.pure _
  | .return none span => rw [stmt]; exact h.pure _
  | .return (some e) span =>
      rw [stmt]
      exact h.bind (h.orUndefined (link_inherits h.evaluated e scope)) fun _ => h.pure _
  | .cond test yes none span =>
      rw [stmt]
      refine h.bind (h.orUndefined (link_inherits h.evaluated test scope)) fun v => ?_
      split
      · exact stmt_inherits h yes scope
      · exact h.pure _
  | .cond test yes (some no) span =>
      rw [stmt]
      refine h.bind (h.orUndefined (link_inherits h.evaluated test scope)) fun v => ?_
      split
      · exact stmt_inherits h yes scope
      · exact stmt_inherits h no scope
  | .while test body span =>
      rw [stmt]
      refine h.iterate (fun _ => h.bind (h.orUndefined (link_inherits h.evaluated test scope)) fun v => ?_) _ _
      split
      · exact h.bind (stmt_inherits h body scope) fun completion => h.next completion (h.pure _)
      · exact h.pure _
  | .doWhile body test span =>
      rw [stmt]
      refine h.iterate (fun _ => h.bind (stmt_inherits h body scope) fun completion => h.next completion ?_) _ _
      refine h.bind (h.orUndefined (link_inherits h.evaluated test scope)) fun v => ?_
      split <;> exact h.pure _
  | .for init test update body span =>
      rw [stmt_for]
      exact h.child fun f => h.bind (forInit_inherits h init _) fun names =>
        rounds_inherits h (l := ⟨test, update, body, names, scope⟩) (stmt_inherits h body) _ f
  | .block b => rw [stmt]; exact block_inherits h b scope
  | .break span => rw [stmt]; exact h.pure _
  | .continue span => rw [stmt]; exact h.pure _
  | .debugger span => rw [stmt]; exact h.pure _
  | .empty span => rw [stmt]; exact h.pure _
  | .function fn => rw [stmt]; exact h.fault _
termination_by structural st

theorem block_inherits (h : c.Inherited P) (b : Block) (scope : Scope) : P scope (block c b scope) := by
  match b with
  | .mk statements span =>
      rw [block]
      exact h.child fun f => stmts_inherits h statements (f :: scope)
termination_by structural b

theorem stmts_inherits (h : c.Inherited P) (statements : List Stmt) (scope : Scope) :
    P scope (stmts c statements scope) := by
  match statements with
  | [] => rw [stmts]; exact h.pure _
  | st :: rest =>
      rw [stmts]
      refine h.bind (stmt_inherits h st scope) fun completion => ?_
      cases completion with
      | normal => exact stmts_inherits h rest scope
      | _ => exact h.pure _
termination_by structural statements

end

end Eval

/-! ## Functions -/

section

variable {P : {α : Type} → Scope → Comp α → Prop}

/-- What a function does behind its new frame. -/
def Closure.enter (c : Context) (closure : Closure) (args : List Value) (scope : Scope) : Comp Value := do
  Eval.bindElements c closure.params args (.declare false) scope
  match closure.body with
  | .expr e => e.eval c scope
  | .block b =>
    match ← Eval.block c b scope with
    | .return v => return v
    | _ => return .undefined

theorem Closure.run_eq (c : Context) (closure : Closure) (args : List Value) :
    closure.run c args = Comp.ofAct closure.scope.child >>= closure.enter c args := rfl

theorem Closure.enter_inherits {c : Context} (h : c.Inherited P) (closure : Closure) (args : List Value)
    (scope : Scope) : P scope (closure.enter c args scope) := by
  refine h.bind (Eval.bindElements_inherits h.evaluated (Eval.declareName_inherits h _ _) closure.params args) ?_
  intro _
  split
  · exact h.orUndefined (Eval.link_inherits h.evaluated _ _)
  · refine h.bind (Eval.block_inherits h _ _) fun completion => ?_
    cases completion <;> exact h.pure _

/-- A function runs in the scope that it was written in. -/
theorem Closure.run_inherits {c : Context} (h : c.Inherited P) (closure : Closure) (args : List Value) :
    P closure.scope (closure.run c args) :=
  h.child fun f => closure.enter_inherits h args (f :: closure.scope)

variable (h : Comp.Evaluated P) {scope : Scope}

include h

theorem Comp.Evaluated.routine : Comp.Routine (fun {_} => Act.Local []) (fun {_} => P scope) where
  pure := h.pure
  bind := h.bind
  act := h.act

theorem BoundMethod.call_inherits {call : Function → List Value → Comp Value} (hcall : ∀ f args, P scope (call f args))
    (m : BoundMethod) (args : List Value) : P scope (m.call call args) := by
  cases m with
  | text s m => exact h.act (m.call_local s args)
  | number x m => exact h.act (m.call_local x args)
  | array a m => exact h.act (m.call_local a args)
  | callback a m => exact CallbackMethod.call_routine h.routine Act.local_routine hcall m a args
  | promise p m => cases m <;> exact h.promise _ nofun

theorem Builtin.call_inherits (b : Builtin) (args : List Value) : P scope (b.call args) := by
  unfold call
  split
  · exact h.bind (h.act (Value.elements_local _)) fun _ => h.promise _ nofun
  · split
    · exact h.pure _
    · exact h.promise _ nofun
  · exact h.promise _ nofun
  · exact h.act (callPlain_local _ args)

/-- The answer of a synchronous function. -/
theorem Response.now_inherits (response : Response) : P scope response.now := by
  unfold now
  split
  · exact h.change (Value.ofJson_local _)
  · exact h.bind (h.change (Value.ofJson_local _)) fun _ => h.act (.raise _)

end

/-- A job for the outcome of a promise runs nothing but a handler. -/
theorem Context.runJob_chain_inherits {P : {α : Type} → Scope → Comp α → Prop} {c : Context} (h : c.Evaluated P)
    {scope : Scope} (source : PromiseRef) (onFulfilled onRejected : Value) :
    P scope (c.runJob (.chain source onFulfilled onRejected)) := by
  have hhandle : ∀ handler outcome, P scope (c.handle handler outcome) := by
    intro handler outcome
    unfold handle
    split
    · exact h.bind (h.call scope _ _) fun v => h.settle v
    · exact h.bind (h.call scope _ _) fun v => h.settle v
    · exact h.pure _
    · exact h.act (.raise _)
  refine h.bind (h.await source) fun outcome => ?_
  cases outcome with
  | fulfilled v => exact hhandle _ _
  | rejected v => exact hhandle _ _

end FieldScript
