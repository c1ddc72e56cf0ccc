import FieldScript.Eval.Evaluate

/-!
# Courses of computations

A computation tells where it waits and what it asks for, and is told outcomes and promises in return. A
*course* of a computation is what it is told up to its end. Every course of one computation behind another
starts with a course of the first one.

Some computations end early. `Stops` says that all that happens in a course happens in a part of the
computation if that part has a certain result. A logical assignment stops with its target, and a chain with
the object of an optional link.
-/

namespace FieldScript

/-- What a computation is told, and the store that it finds then. -/
inductive Turn where
  | outcome (outcome : Settled) (store : Store)
  | promise (p : PromiseRef) (store : Store)

/-- A computation comes to a result and leaves a store if it is told certain things. -/
inductive Runs {α : Type} : Suspension α → List Turn → Except Halt α → Store → Prop where
  | done (r : Except Halt α) (s : Store) : Runs (.done r s) [] r s
  | await {p : PromiseRef} {s t u : Store} {resume : Settled → Store → Suspension α} {outcome : Settled}
      {turns : List Turn} {r : Except Halt α} (h : Runs (resume outcome t) turns r u) :
      Runs (.await p s resume) (.outcome outcome t :: turns) r u
  | spawn {task : Task} {s t u : Store} {resume : PromiseRef → Store → Suspension α} {p : PromiseRef}
      {turns : List Turn} {r : Except Halt α} (h : Runs (resume p t) turns r u) :
      Runs (.spawn task s resume) (.promise p t :: turns) r u

namespace Runs

variable {α β : Type} {x : Suspension α} {f : α → Store → Suspension β} {turns : List Turn}
  {r : Except Halt β} {t : Store}

/-- A course of a computation behind another starts with a course of the first one. -/
theorem bind_inv (h : Runs (x.bind f) turns r t) :
    (∃ e, r = .error e ∧ Runs x turns (.error e) t) ∨
      ∃ a turns₁ turns₂ s, turns = turns₁ ++ turns₂ ∧ Runs x turns₁ (.ok a) s ∧ Runs (f a s) turns₂ r t := by
  induction x generalizing turns with
  | done result s =>
      cases result with
      | error e =>
          cases h
          exact .inl ⟨e, rfl, .done _ _⟩
      | ok a => exact .inr ⟨a, [], turns, s, rfl, .done _ _, h⟩
  | await p s resume ih =>
      cases h with
      | await h =>
          rcases ih _ _ h with ⟨e, rfl, hx⟩ | ⟨a, turns₁, turns₂, s', rfl, hx, hf⟩
          · exact .inl ⟨e, rfl, hx.await⟩
          · exact .inr ⟨a, _ :: turns₁, turns₂, s', rfl, hx.await, hf⟩
  | spawn task s resume ih =>
      cases h with
      | spawn h =>
          rcases ih _ _ h with ⟨e, rfl, hx⟩ | ⟨a, turns₁, turns₂, s', rfl, hx, hf⟩
          · exact .inl ⟨e, rfl, hx.spawn⟩
          · exact .inr ⟨a, _ :: turns₁, turns₂, s', rfl, hx.spawn, hf⟩

/-- A course determines what a computation comes to. -/
theorem unique {r r' : Except Halt α} {s s' : Store} (h : Runs x turns r s) (h' : Runs x turns r' s') :
    r = r' ∧ s = s' := by
  induction h with
  | done r s =>
      cases h'
      exact ⟨rfl, rfl⟩
  | await _ ih =>
      cases h' with
      | await h' => exact ih h'
  | spawn _ ih =>
      cases h' with
      | spawn h' => exact ih h'

/-- What follows a computation only matters at the ends of its courses. -/
theorem bind_congr {g : α → Store → Suspension β}
    (h : ∀ turns a s, Runs x turns (.ok a) s → f a s = g a s) : x.bind f = x.bind g := by
  induction x with
  | done result s =>
      cases result with
      | error e => rfl
      | ok a => exact h [] a s (.done _ _)
  | await p s resume ih =>
      have hresume : (fun outcome t => (resume outcome t).bind f) = fun outcome t => (resume outcome t).bind g := by
        funext outcome t
        exact ih outcome t fun turns a u hrun => h _ a u hrun.await
      simp only [Suspension.bind, hresume]
  | spawn task s resume ih =>
      have hresume : (fun p t => (resume p t).bind f) = fun p t => (resume p t).bind g := by
        funext p t
        exact ih p t fun turns a u hrun => h _ a u hrun.spawn
      simp only [Suspension.bind, hresume]

end Runs

/-! ## Computations that end early -/

/-- Every course of the second computation starts with one of the first. If the result of the first one
decides, this is all that happens. -/
def Stops {α β : Type} (x : Suspension α) (y : Suspension β) (decided : α → Option β) : Prop :=
  ∀ turns r t, Runs y turns r t →
    (∃ e, r = .error e ∧ Runs x turns (.error e) t) ∨
      ∃ a turns₁ turns₂ s, turns = turns₁ ++ turns₂ ∧ Runs x turns₁ (.ok a) s ∧
        ∀ b, decided a = some b → turns₂ = [] ∧ r = .ok b ∧ t = s

namespace Stops

variable {α β γ : Type} {x : Suspension α} {y : Suspension β} {decided : α → Option β}

theorem bind {f : α → Store → Suspension β}
    (h : ∀ a b s, decided a = some b → f a s = .done (.ok b) s) : Stops x (x.bind f) decided := by
  intro turns r t hrun
  rcases hrun.bind_inv with herror | ⟨a, turns₁, turns₂, s, hturns, hx, hf⟩
  · exact .inl herror
  · refine .inr ⟨a, turns₁, turns₂, s, hturns, hx, fun b hb => ?_⟩
    rw [h a b s hb] at hf
    cases hf
    exact ⟨rfl, rfl, rfl⟩

/-- What goes on behind a computation that ends early ends early, if it does nothing with its result. -/
theorem trans {f : β → Store → Suspension γ} {decided' : α → Option γ} (h : Stops x y decided)
    (hdecided : ∀ a c, decided' a = some c → ∃ b, decided a = some b ∧ ∀ s, f b s = .done (.ok c) s) :
    Stops x (y.bind f) decided' := by
  intro turns r t hrun
  rcases hrun.bind_inv with ⟨e, rfl, hy⟩ | ⟨b, turns₁, turns₂, s, rfl, hy, hf⟩
  · rcases h turns _ t hy with ⟨e', he, hx⟩ | ⟨a, us, us', s, hus, hx, hstop⟩
    · cases he
      exact .inl ⟨e, rfl, hx⟩
    · refine .inr ⟨a, us, us', s, hus, hx, fun c hc => ?_⟩
      obtain ⟨b, hb, -⟩ := hdecided a c hc
      obtain ⟨-, herror, -⟩ := hstop b hb
      cases herror
  · rcases h turns₁ _ s hy with ⟨e', he, hx⟩ | ⟨a, us, us', s', rfl, hx, hstop⟩
    · cases he
    · refine .inr ⟨a, us, us' ++ turns₂, s', by rw [List.append_assoc], hx, fun c hc => ?_⟩
      obtain ⟨b', hb, hnext⟩ := hdecided a c hc
      obtain ⟨rfl, hresult, rfl⟩ := hstop b' hb
      cases hresult
      rw [hnext] at hf
      cases hf
      exact ⟨rfl, rfl, rfl⟩

end Stops

/-! ## Chains -/

/-- An expression that goes on with the chain of another one. -/
inductive Expr.Continues (start : Expr) : Expr → Prop where
  | here : Continues start start
  | member {o : Expr} (k : Key) (optional : Bool) (span : Span) (h : Continues start o) :
      Continues start (.member o k optional span)
  | call {callee : Expr} (args : List Item) (optional : Bool) (span : Span) (h : Continues start callee) :
      Continues start (.call callee args optional span)

/-- A chain with an optional link behind an object. -/
def Expr.HasOptionalLink (e o : Expr) : Prop :=
  ∃ span, (∃ k, (Expr.member o k true span).Continues e) ∨ ∃ args, (Expr.call o args true span).Continues e

/-- The object of an optional link breaks off the chain if it is null or undefined, or if the chain has
broken off before. -/
def brokenOff : Option Value → Option (Option Value)
  | none => some none
  | some v => if v.isNullish then some none else none

namespace Eval

variable {c : Context} {scope : Scope} {s : Store}

theorem stops_logical (op : LogicalOp) (target : Pattern) (value : Expr) (span : Span) :
    Stops (current c target scope s) (link c (.assign (.logical op) target value span) scope s)
      fun a => if op.isDecided a then some (some a) else none := by
  have hlink : link c (.assign (.logical op) target value span) scope = (do
      let a ← current c target scope
      if op.isDecided a then return some a
      else
        let v ← orUndefined (link c value scope)
        bindPattern c target v .assign scope
        return some v) := by rw [link]
  rw [hlink]
  refine Stops.bind fun a b s hb => ?_
  split at hb
  · cases hb
    rename_i hdecided
    rw [if_pos hdecided]
    rfl
  · cases hb

theorem stops_member (o : Expr) (k : Key) (span : Span) :
    Stops (link c o scope s) (link c (.member o k true span) scope s) brokenOff := by
  refine Stops.bind fun v b s hb => ?_
  cases v with
  | none =>
      cases hb
      rfl
  | some v =>
      simp only [brokenOff] at hb
      split at hb
      · cases hb
        rename_i hnullish
        simp only [hnullish, Bool.and_self, if_true]
        rfl
      · cases hb

theorem stops_call (callee : Expr) (args : List Item) (span : Span) :
    Stops (link c callee scope s) (link c (.call callee args true span) scope s) brokenOff := by
  refine Stops.bind fun f b s hb => ?_
  cases f with
  | none =>
      cases hb
      rfl
  | some f =>
      simp only [brokenOff] at hb
      split at hb
      · cases hb
        rename_i hnullish
        simp only [hnullish, Bool.and_self, if_true]
        rfl
      · cases hb

/-- A chain that goes on behind one that has broken off does nothing. -/
theorem Stops.continues {start e : Expr} {x : Suspension (Option Value)} (h : start.Continues e)
    (hstart : Stops x (link c start scope s) brokenOff) : Stops x (link c e scope s) brokenOff := by
  have hnone : ∀ a d, brokenOff a = some d → d = none := by
    intro a d hd
    cases a with
    | none =>
        cases hd
        rfl
    | some v =>
        simp only [brokenOff] at hd
        split at hd <;> cases hd
        rfl
  induction h with
  | here => exact hstart
  | member k optional span _ ih =>
      refine Stops.trans ih fun a d hd => ⟨none, ?_, ?_⟩
      · rw [hd, hnone a d hd]
      · intro s
        rw [hnone a d hd]
        rfl
  | call args optional span _ ih =>
      refine Stops.trans ih fun a d hd => ⟨none, ?_, ?_⟩
      · rw [hd, hnone a d hd]
      · intro s
        rw [hnone a d hd]
        rfl

/-- A chain with an optional link ends with the object of the link if that is null or undefined: nothing to
the right of it is evaluated. -/
theorem stops_chain {o e : Expr} (h : e.HasOptionalLink o) :
    Stops (link c o scope s) (link c e scope s) brokenOff := by
  obtain ⟨span, ⟨k, h⟩ | ⟨args, h⟩⟩ := h
  · exact Stops.continues h (stops_member o k span)
  · exact Stops.continues h (stops_call o args span)

end Eval

end FieldScript
