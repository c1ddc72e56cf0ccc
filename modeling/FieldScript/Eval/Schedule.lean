import FieldScript.Eval.Call

/-!
# Scheduling

Promises are driven by polling. To poll a promise is to ask whether it is settled, and to let it go on
if it can: a part of a body that waits for another promise polls that one first, the answer of an
external function counts how often it was polled, and a promise of several outcomes polls each of them
in order. A promise of very many outcomes polls only some of them at a time, in turn.

A part of a body that runs on its own is polled once when it is made. All other promises are first
polled when something waits for them. Every promise is remembered, so that those which nothing waited
for can be settled in the end.
-/

namespace FieldScript

/-- Many values that are polled in turn. -/
structure Crowd where
  /-- The outcomes by position, as far as they are known. -/
  outcomes : List (Option Settled)
  /-- The values without an outcome and their positions, in the order in which they are polled. -/
  queue : List (Value × Nat)

/-- The state of a promise. -/
inductive Slot where
  | settled (outcome : Settled)
  /-- A part of a body that waits for another promise. -/
  | waiting (p : PromiseRef) (resume : Settled → Store → Suspension Value)
  /-- The answer of an external function, and whether it was asked for yet. -/
  | host (id : Nat) (started : Bool) (response : Response)
  | all (items : List Value)
  | crowd (c : Crowd)
  /-- Being polled: polling it again changes nothing. -/
  | busy

/-- The state of a run. -/
structure World where
  store : Store
  promises : Array Slot
  /-- Promises to be settled in the end, in the order in which they came. -/
  tracked : Array PromiseRef

/-- A step of the scheduler. -/
abbrev Sched := StateT World (Except Abort)

/-- How far a computation got. -/
inductive Progress (α : Type) where
  | done (result : Except Raised α)
  | waiting (p : PromiseRef) (resume : Settled → Store → Suspension α)

namespace Sched

def setStore (s : Store) : Sched Unit := modify fun w => { w with store := s }

/-- Changes the store. -/
def change {α : Type} (x : Change α) : Sched α :=
  modifyGet fun w =>
    let (a, s) := x.run w.store
    (a, { w with store := s })

/-- Writes an event into the journal. -/
def record (e : Event) : Sched Unit :=
  modify fun w => { w with store := { w.store with journal := w.store.journal.record e } }

def slot (p : PromiseRef) : Sched Slot := do return ((← get).promises[p.index]?).getD .busy

def setSlot (p : PromiseRef) (slot : Slot) : Sched Unit :=
  modify fun w => { w with promises := w.promises.setIfInBounds p.index slot }

def addSlot (slot : Slot) : Sched PromiseRef :=
  modifyGet fun w => (⟨w.promises.size⟩, { w with promises := w.promises.push slot })

/-- Remembers a promise. -/
def track (p : PromiseRef) : Sched Unit :=
  modify fun w => { w with tracked := w.tracked.push p }

/-- Settles a promise. -/
def settle (p : PromiseRef) (outcome : Settled) : Sched (Option Settled) := do
  setSlot p (.settled outcome)
  return some outcome

/-- The outcome of a computation that is done. -/
def outcome (result : Except Raised Value) : Sched Settled :=
  match result with
  | .ok v => return .fulfilled v
  | .error r => do return .rejected (← change (Change.raisedValue r))

end Sched

/-- The two things that the rest of the scheduler needs. -/
structure Scheduler where
  /-- Asks for the outcome of a promise. -/
  poll : PromiseRef → Sched (Option Settled)
  /-- Makes a promise of a task. -/
  start : Task → Sched PromiseRef

/-- Lets a computation go on as far as it can. -/
def Scheduler.advance {α : Type} (scheduler : Scheduler) : Suspension α → Sched (Progress α)
  | .done (.ok a) s => do
    Sched.setStore s
    return .done (.ok a)
  | .done (.error (.raised r)) s => do
    Sched.setStore s
    return .done (.error r)
  | .done (.error (.aborted a)) _ => throw a
  | .await p s resume => do
    Sched.setStore s
    match ← scheduler.poll p with
    | some outcome => do scheduler.advance (resume outcome (← get).store)
    | none => return .waiting p resume
  | .spawn task s resume => do
    Sched.setStore s
    let p ← scheduler.start task
    scheduler.advance (resume p (← get).store)

/-- What polling several values gives. -/
inductive Collected where
  | values (vs : List Value)
  | rejected (v : Value)
  | pending

/-- Polls values in order, up to the first rejection. -/
def Scheduler.collect (scheduler : Scheduler) : List Value → Sched Collected
  | [] => return .values []
  | .promise p :: rest => do
    match ← scheduler.poll p with
    | some (.rejected v) => return .rejected v
    | some (.fulfilled v) =>
      match ← scheduler.collect rest with
      | .values vs => return .values (v :: vs)
      | other => return other
    | none =>
      match ← scheduler.collect rest with
      | .values _ => return .pending
      | other => return other
  | v :: rest => do
    match ← scheduler.collect rest with
    | .values vs => return .values (v :: vs)
    | other => return other

/-! ## Crowds -/

/-- The most values that are polled all at once. -/
def maxPolledTogether : Nat := 30

namespace Crowd

/-- Values of which none was polled yet. -/
def ofValues (items : List Value) : Crowd := ⟨items.map fun _ => none, items.zipIdx⟩

/-- What outcomes amount to. They count in the order of their positions: a rejection has to wait for
the outcomes before it. -/
def verdict : List (Option Settled) → Collected
  | [] => .values []
  | none :: _ => .pending
  | some (.rejected v) :: _ => .rejected v
  | some (.fulfilled v) :: rest =>
    match verdict rest with
    | .values vs => .values (v :: vs)
    | other => other

/-- Values that are all fulfilled are the answer. -/
theorem verdict_fulfilled (vs : List Value) :
    verdict (vs.map fun v => some (.fulfilled v)) = .values vs := by
  induction vs with
  | nil => rfl
  | cons v vs ih => simp [verdict, ih]

/-- How many values in a row may turn out to be unsettled before the others have to wait: two, or one
if there is no other. -/
def patience (queue : List (Value × Nat)) : Nat := min 2 queue.length

end Crowd

/-- Asks for the outcome of a value; what is no promise is its own. -/
def Scheduler.pollValue (scheduler : Scheduler) (v : Value) : Sched (Option Settled) :=
  match v with
  | .promise p => scheduler.poll p
  | other => return some (.fulfilled other)

/-- Polls the values of a crowd in turn until it is decided or patience ends. A value that is settled
leaves the queue, and one that is not goes to its end. -/
def Scheduler.serve (scheduler : Scheduler) (patience : Nat) (outcomes : List (Option Settled))
    (queue : List (Value × Nat)) : Sched (Collected × Crowd) := do
  match Crowd.verdict outcomes, patience, queue with
  | .pending, patience + 1, (v, i) :: queue =>
    match ← scheduler.pollValue v with
    | some outcome =>
      scheduler.serve (Crowd.patience queue) (outcomes.set i (some outcome)) queue
    | none => scheduler.serve patience outcomes (queue ++ [(v, i)])
  | collected, _, queue => return (collected, ⟨outcomes, queue⟩)
termination_by (queue.length, patience)

/-! ## Polling -/

/-- Notes how far the computation behind a promise got. -/
def notePromise (p : PromiseRef) (progress : Progress Value) : Sched (Option Settled) :=
  match progress with
  | .done result => do Sched.settle p (← Sched.outcome result)
  | .waiting q resume => do
    Sched.setSlot p (.waiting q resume)
    return none

/-- Polls a promise, given how to poll others. -/
def Scheduler.pollWith (scheduler : Scheduler) (p : PromiseRef) : Sched (Option Settled) := do
  match ← Sched.slot p with
  | .settled outcome => return some outcome
  | .busy => return none
  | .waiting q resume =>
    Sched.setSlot p .busy
    match ← scheduler.poll q with
    | none =>
      Sched.setSlot p (.waiting q resume)
      return none
    | some outcome => notePromise p (← scheduler.advance (resume outcome (← get).store))
  | .host id started response =>
    unless started do Sched.record (.start id)
    match response.delay with
    | 0 =>
      Sched.record (.done id)
      match response.result with
      | .ok j => Sched.settle p (.fulfilled (← Sched.change (Value.ofJson j)))
      | .error j => Sched.settle p (.rejected (← Sched.change (Value.ofJson j)))
    | delay + 1 =>
      Sched.setSlot p (.host id true { response with delay := delay })
      return none
  | .all items =>
    Sched.setSlot p .busy
    match ← scheduler.collect items with
    | .values vs => Sched.settle p (.fulfilled (← Sched.change (Change.newArray vs.toArray)))
    | .rejected v => Sched.settle p (.rejected v)
    | .pending =>
      Sched.setSlot p (.all items)
      return none
  | .crowd crowd =>
    Sched.setSlot p .busy
    match ← scheduler.serve (Crowd.patience crowd.queue) crowd.outcomes crowd.queue with
    | (.values vs, _) => Sched.settle p (.fulfilled (← Sched.change (Change.newArray vs.toArray)))
    | (.rejected v, _) => Sched.settle p (.rejected v)
    | (.pending, crowd) =>
      Sched.setSlot p (.crowd crowd)
      return none

/-- Makes a promise of a task, given how to poll promises and to make others. -/
def Scheduler.startWith (scheduler : Scheduler) (run : Job → Comp Value) (task : Task) :
    Sched PromiseRef := do
  let p ← match task with
    | .settled outcome => Sched.addSlot (.settled outcome)
    | .host id response => Sched.addSlot (.host id false response)
    | .all items =>
      Sched.addSlot <|
        if items.length ≤ maxPolledTogether then .all items else .crowd (Crowd.ofValues items)
    | .job job => do
      let p ← Sched.addSlot .busy
      let _ ← notePromise p (← scheduler.advance (run job (← get).store))
      pure p
  Sched.track p
  return p

/-- The scheduler that goes down a number of levels. -/
def scheduler (run : Job → Comp Value) : Nat → Scheduler
  | 0 => { poll := fun _ => throw .exhausted, start := fun _ => throw .exhausted }
  | levels + 1 =>
    { poll := fun p => (scheduler run levels).pollWith p
      start := fun task => (scheduler run levels).startWith run task }

namespace Scheduler

/-- Polls a promise until it is settled. -/
def complete (scheduler : Scheduler) : Nat → PromiseRef → Sched Settled
  | 0, _ => throw .exhausted
  | rounds + 1, p => do
    match ← scheduler.poll p with
    | some outcome => return outcome
    | none => scheduler.complete rounds p

/-- Lets a computation go on until it is done. -/
def finish {α : Type} (scheduler : Scheduler) (rounds : Nat) :
    Suspension α → Sched (Except Raised α)
  | .done (.ok a) s => do
    Sched.setStore s
    return .ok a
  | .done (.error (.raised r)) s => do
    Sched.setStore s
    return .error r
  | .done (.error (.aborted a)) _ => throw a
  | .await p s resume => do
    Sched.setStore s
    let outcome ← scheduler.complete rounds p
    scheduler.finish rounds (resume outcome (← get).store)
  | .spawn task s resume => do
    Sched.setStore s
    let p ← scheduler.start task
    scheduler.finish rounds (resume p (← get).store)

/-- Settles the promises that are left over, in the order in which they came, and then those that
came meanwhile. -/
def drain (scheduler : Scheduler) (rounds : Nat) : Nat → Sched Unit
  | 0 => throw .exhausted
  | batches + 1 => do
    let batch := (← get).tracked
    if batch.isEmpty then return
    modify fun w => { w with tracked := #[] }
    for p in batch do
      let _ ← scheduler.complete rounds p
    scheduler.drain rounds batches

end Scheduler
end FieldScript
