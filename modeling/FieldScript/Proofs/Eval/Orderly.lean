import FieldScript.Proofs.Eval.Inherited

/-!
# What computations write into the journal

A running body writes into the journal only when it calls an external function. The call of a synchronous
function is answered on the spot. The call of an asynchronous one is the last thing that happens before the
computation asks for the promise of its answer, so no such call is made without a promise.

## Strategy

* `Journal.Quiet`: the calls of synchronous functions between two journals.
* `Suspension.Orderly`: what a computation writes up to each point at which it stops.
* `Comp.orderly_inherited`: bodies have this from their actions and their calls, so one lemma per kind of function that
  can be called remains.
-/

namespace FieldScript

/-! ## Journals -/

/-- A journal with more calls of synchronous functions than another. -/
inductive Journal.Quiet (api : Api) (j : Journal) : Journal → Prop where
  | refl : Quiet api j j
  | call {j' : Journal} {name : String} {f : HostFunction} (args : List Json) (h : Quiet api j j')
      (hname : api.get? name = some f) (hsync : f.isAsync = false) :
      Quiet api j (j'.record (.call j'.calls api.owner name args))

theorem Journal.Quiet.trans {api : Api} {j j₁ j₂ : Journal} (h : Quiet api j j₁) (h' : Quiet api j₁ j₂) :
    Quiet api j j₂ := by
  induction h' with
  | refl => exact h
  | call args _ hname hsync ih => exact .call args ih hname hsync

/-- What the journal has more when a computation asks for the promise of a task: that of an answer comes
right after the call. -/
def Journal.Asks (api : Api) (j j' : Journal) : Task → Prop
  | .host id _ => ∃ j₁ name f args, Quiet api j j₁ ∧ api.get? name = some f ∧ f.isAsync = true ∧ id = j₁.calls ∧
      j' = j₁.record (.call id api.owner name args)
  | _ => Quiet api j j'

/-- A computation that asks for a promise whenever it calls an asynchronous function, and writes nothing else
into the journal than its calls. -/
def Suspension.Orderly {α : Type} (api : Api) (j : Journal) : Suspension α → Prop
  | .done _ s => Journal.Quiet api j s.journal
  | .await _ s resume => Journal.Quiet api j s.journal ∧ ∀ outcome s, (resume outcome s).Orderly api s.journal
  | .spawn task s resume => Journal.Asks api j s.journal task ∧ ∀ p s, (resume p s).Orderly api s.journal

/-- The same from every store on. -/
def Comp.Orderly {α : Type} (api : Api) (x : Comp α) : Prop := ∀ s, (x s).Orderly api s.journal

/-- A context that calls functions in this way. -/
def Context.Orderly (api : Api) (c : Context) : Prop := ∀ f args, (c.call f args).Orderly api

/-! ## Rules -/

section

variable {α β : Type} {api : Api}

theorem Journal.Asks.of_quiet {j j₁ j₂ : Journal} {task : Task} (hquiet : Quiet api j j₁) (h : Asks api j₁ j₂ task) :
    Asks api j j₂ task := by
  cases task with
  | host id response =>
      obtain ⟨j', name, f, args, h, hrest⟩ := h
      exact ⟨j', name, f, args, hquiet.trans h, hrest⟩
  | settled outcome => exact hquiet.trans h
  | job j => exact hquiet.trans h
  | all items => exact hquiet.trans h

theorem Suspension.Orderly.of_quiet {j j' : Journal} {x : Suspension α} (hquiet : Journal.Quiet api j j')
    (h : x.Orderly api j') : x.Orderly api j := by
  cases x with
  | done result s => exact hquiet.trans h
  | await p s resume => exact ⟨hquiet.trans h.1, h.2⟩
  | spawn task s resume => exact ⟨h.1.of_quiet hquiet, h.2⟩

theorem Suspension.Orderly.bind {j : Journal} {x : Suspension α} {f : α → Store → Suspension β}
    (hx : x.Orderly api j) (hf : ∀ a s, (f a s).Orderly api s.journal) : (x.bind f).Orderly api j := by
  induction x generalizing j with
  | done result s =>
      cases result with
      | ok a => exact (hf a s).of_quiet hx
      | error h => exact hx
  | await p s resume ih => exact ⟨hx.1, fun outcome s => ih outcome s (hx.2 outcome s)⟩
  | spawn task s resume ih => exact ⟨hx.1, fun p s => ih p s (hx.2 p s)⟩

namespace Comp.Orderly

theorem pure (a : α) : (Pure.pure a : Comp α).Orderly api := fun _ => .refl

theorem bind {x : Comp α} {f : α → Comp β} (hx : x.Orderly api) (hf : ∀ a, (f a).Orderly api) :
    (x >>= f).Orderly api := fun s => (hx s).bind fun a => hf a

/-- An action that leaves the journal alone. -/
theorem act {x : Act α} (hx : ∀ s, (x.run.run s).2.journal = s.journal) : (Comp.ofAct x).Orderly api := by
  intro s
  show Journal.Quiet api s.journal (x.run.run s).2.journal
  rw [hx s]
  exact .refl

theorem of_local (scope : Scope) {x : Act α} (hx : x.Local scope) : (Comp.ofAct x).Orderly api :=
  act fun s => (hx s).journal

theorem await (p : PromiseRef) : (Comp.await p).Orderly api := fun _ => ⟨.refl, fun _ _ => .refl⟩

end Comp.Orderly

/-- Nothing that a body does writes into the journal, apart from its calls. -/
theorem Comp.orderly_inherited (api : Api) : Comp.Inherited fun {_} _ x => x.Orderly api where
  pure := .pure
  bind := .bind
  act hx := .of_local _ hx
  assign c name v := .of_local _ (c.assign_local name v _)
  declare name v constant := .of_local _ (Scope.declare_local _ name v constant)
  await := .await
  promise task htask s := by
    have hquiet : Journal.Asks api s.journal s.journal task := by
      cases task with
      | host id response => exact absurd rfl (htask id response)
      | settled _ | job _ | all _ => exact .refl
    exact ⟨hquiet, fun _ _ => .refl⟩
  exhausted := fun _ => .refl
  arrow _ _ := .act fun _ => rfl
  child hk s := hk ⟨s.frames.size⟩ s.addFrame.2
  renewed {_ scope _ _} names current _ hk s := by
    rw [Comp.ofAct_bind (Scope.renewed_run names current scope s)]
    have hjournal := (Scope.copied_varies names current ⟨s.frames.size⟩ s.addFrame.2).journal
    exact hjournal ▸ hk ⟨s.frames.size⟩ _

theorem Context.Orderly.inherited {c : Context} (hc : c.Orderly api) : c.Inherited fun {_} _ x => x.Orderly api :=
  { Comp.orderly_inherited api with call := fun _ => hc }

end

/-! ## Functions -/

/-- The call of an external function: only here does a computation write into the journal. -/
theorem Setting.callCapability_orderly (c : Setting) (name : String) (args : List Value) :
    (c.callCapability name args).Orderly c.api := by
  have hdocuments : (Comp.ofAct (args.mapM Value.toDocument)).Orderly c.api :=
    .of_local [] (.mapM Value.toDocument_local args)
  cases hname : c.api.get? name with
  | none =>
      rw [callCapability_none hname]
      exact @(Comp.orderly_inherited c.api).fault _ _ [] _
  | some f =>
      by_cases hasync : f.isAsync = true
      · unfold callCapability
        rw [hname]
        refine hdocuments.bind fun documents s => ?_
        rw [hasync]
        exact ⟨⟨s.journal, name, f, documents, .refl, hname, hasync, rfl, rfl⟩, fun _ _ => .refl⟩
      · have hsync : f.isAsync = false := by simpa using hasync
        rw [callCapability_now hname hsync]
        refine .bind (hdocuments.bind fun documents s => ?_) fun p =>
          @p.2.now_inherits _ (Comp.orderly_inherited c.api).toEvaluated []
        exact .call documents .refl hname hsync

theorem Setting.callFunction_orderly (c : Setting) (rounds levels : Nat) (f : Function) (args : List Value) :
    (c.callFunction rounds levels f args).Orderly c.api := by
  have h := Comp.orderly_inherited c.api
  induction levels generalizing f args with
  | zero => exact @h.exhausted _ []
  | succ levels ih =>
      have hinner : Context.Orderly c.api { c with call := c.callFunction rounds levels, rounds } := ih
      cases f with
      | closure ref =>
          refine .bind (.of_local [] (Act.closure_local ref)) fun closure => ?_
          split
          · exact @h.promise [] _ nofun
          · exact closure.run_inherits hinner.inherited args
      | builtin b => exact @b.call_inherits _ h.toEvaluated [] args
      | method m => exact @m.call_inherits _ h.toEvaluated [] _ ih args
      | capability name => exact c.callCapability_orderly name args

theorem Setting.context_orderly (c : Setting) (fuel : Nat) : (c.context fuel).Orderly c.api :=
  c.callFunction_orderly fuel fuel

namespace Context

variable {api : Api} {c : Context}

theorem runJob_orderly (hc : c.Orderly api) (job : Job) : (c.runJob job).Orderly api := by
  cases job with
  | closure ref args =>
      refine .bind (.of_local [] (Act.closure_local ref)) fun closure => ?_
      exact .bind (closure.run_inherits hc.inherited args) fun v => @hc.inherited.settle _ [] v
  | chain source onFulfilled onRejected =>
      exact @runJob_chain_inherits _ _ hc.inherited.evaluated [] source onFulfilled onRejected

theorem runBody_orderly (hc : c.Orderly api) (body : Block) : (c.runBody body).Orderly api := by
  refine @hc.inherited.child _ [] _ fun f => .bind (Eval.block_inherits hc.inherited body _) fun completion => ?_
  split
  · exact @hc.inherited.settle _ [] _
  · exact .pure _

end Context

end FieldScript
