import FieldScript.Eval.Convert

/-!
# Computations that wait

A running body acts on the store until it is done, has to wait for a promise, or asks for a new
promise. A computation is described by what it does up to that point and how it goes on from there;
who settles promises, and when, is left to the scheduler.
-/

namespace FieldScript

/-- A part of a body that runs on its own. -/
inductive Job where
  /-- The body of an asynchronous function. -/
  | closure (ref : ClosureRef) (args : List Value)
  /-- A handler for the outcome of another promise. -/
  | chain (source : PromiseRef) (onFulfilled onRejected : Value)

/-- What a promise stands for. -/
inductive Task where
  /-- An outcome that is known already. -/
  | settled (outcome : Settled)
  | job (j : Job)
  /-- The answer of an external function. -/
  | host (id : Nat) (response : Response)
  /-- The outcomes of several values. -/
  | all (items : List Value)

/-- A computation at the point up to which it runs by itself. -/
inductive Suspension (α : Type) where
  | done (result : Except Halt α) (store : Store)
  /-- Waits for a promise. -/
  | await (p : PromiseRef) (store : Store) (resume : Settled → Store → Suspension α)
  /-- Asks for a new promise. -/
  | spawn (task : Task) (store : Store) (resume : PromiseRef → Store → Suspension α)

/-- Goes on with a result. A halted computation does not go on. -/
def Suspension.bind {α β : Type} (x : Suspension α) (f : α → Store → Suspension β) : Suspension β :=
  match x with
  | .done (.ok a) s => f a s
  | .done (.error h) s => .done (.error h) s
  | .await p s resume => .await p s fun outcome s => (resume outcome s).bind f
  | .spawn task s resume => .spawn task s fun p s => (resume p s).bind f

/-- A computation on the store that may wait. -/
def Comp (α : Type) : Type := Store → Suspension α

namespace Comp

instance : Monad Comp where
  pure a := fun s => .done (.ok a) s
  bind x f := fun s => (x s).bind f

/-- An action as a computation that never waits. -/
def ofAct {α : Type} (act : Act α) : Comp α := fun s =>
  match act.run s with
  | (result, s) => .done result s

instance : MonadLift Act Comp where
  monadLift := ofAct

/-- Waits for a promise. -/
def await (p : PromiseRef) : Comp Settled := fun s => .await p s fun outcome s => .done (.ok outcome) s

/-- Asks for a new promise. -/
def spawn (task : Task) : Comp PromiseRef := fun s => .spawn task s fun p s => .done (.ok p) s

/-- Gives up because the steps are used up. -/
def exhausted {α : Type} : Comp α := fun s => .done (.error (.aborted .exhausted)) s

/-- The value that a value settles to: that of a promise once it is settled, and else the value
itself. -/
def settle (v : Value) : Comp Value :=
  match v with
  | .promise p => do
    match ← await p with
    | .fulfilled v => return v
    | .rejected v => ofAct (Act.raise (.thrown v))
  | other => return other

end Comp

/-! ## Laws -/

namespace Suspension

variable {α β γ : Type}

theorem bind_done (x : Suspension α) : (x.bind fun a s => .done (.ok a) s) = x := by
  induction x with
  | done result s => cases result <;> rfl
  | await p s resume ih => simp only [bind]; congr; funext outcome s; exact ih outcome s
  | spawn task s resume ih => simp only [bind]; congr; funext p s; exact ih p s

theorem bind_assoc (x : Suspension α) (f : α → Store → Suspension β) (g : β → Store → Suspension γ) :
    (x.bind f).bind g = x.bind fun a s => (f a s).bind g := by
  induction x with
  | done result s => cases result <;> rfl
  | await p s resume ih => simp only [bind]; congr; funext outcome s; exact ih outcome s
  | spawn task s resume ih => simp only [bind]; congr; funext p s; exact ih p s

end Suspension

instance : LawfulMonad Comp :=
  LawfulMonad.mk' Comp
    (fun x => by funext s; exact Suspension.bind_done (x s))
    (fun _ _ => rfl)
    (fun x f g => by funext s; exact Suspension.bind_assoc (x s) f g)

end FieldScript
