import FieldScript.Proofs.Settle.Walk

/-!
# What becomes of a mapped call

The body `xs.map(x => f(x))` calls an asynchronous function for every element of an array. Settling makes the mapped
function asynchronous, waits for the call inside it, and waits for all results of the map at once
(`settle_mapTree`). The walk over such a small tree is followed step by step: `Walk.Gives` says what a step gives and
what state it leaves.
-/

namespace FieldScript

open Settle (awaited returning joinAll)

/-! ## Trees -/

/-- The call `f(x)` of a function with a variable. -/
def askTree (place : Nat → Span) (x f : String) : Expr :=
  .call (.identifier f (place 0)) [.expr (.identifier x (place 1))] false (place 2)

/-- The function `async x => { return await f(x); }`. -/
def askArrow (place : Nat → Span) (x f : String) : Expr :=
  .arrow [.ident ⟨x, place 6⟩] (.block (.mk [returning (awaited (askTree place x f))] (place 7))) true (place 7)

namespace Settle

/-- The result of a step and the state behind it. -/
def Walk.Gives {α : Type} (step : Walk α) (out : Outside) (s : State) (a : α) (s' : State) : Prop :=
  (step out).run s = (a, s')

section

variable {α β : Type} {out : Outside} {s s₁ s' : State} {place : Nat → Span} {name xs x f : String}

theorem Walk.Gives.bind {step : Walk α} {next : α → Walk β} {a : α} {b : β} (hstep : step.Gives out s a s₁)
    (hnext : (next a).Gives out s₁ b s') : (step >>= next).Gives out s b s' := by
  unfold Gives at hstep hnext ⊢
  show ((step out).run s >>= fun p => (next p.1 out).run p.2) = _
  rw [hstep]
  exact hnext

/-- A name that means something else than a function of the prelude. -/
def Outside.Knows (out : Outside) (locals : Locals) (name : String) : Prop :=
  locals.contains name = true ∨ out.capabilities.contains name = true ∨ out.args.contains name = true

end

end Settle

end FieldScript
