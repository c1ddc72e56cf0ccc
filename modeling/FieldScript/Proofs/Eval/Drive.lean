import FieldScript.Eval.Schedule

/-!
# The scheduler brings computations to where they land

While a computation runs that awaits every promise as soon as it has it, there is one chain of promises
that are not settled: each is a part of the body that waits for the next, and the last one may be the
answer of an external function. Polling the first promise of the chain polls the last one. So it does not matter when
promises are polled, and the course of such a computation can be told without a scheduler.

## Strategy

* `Lands` says what a computation comes to, given what runs behind the promises of jobs. Its number bounds how often and
  how deep a scheduler has to poll.
* `Due` describes such a chain: what its first promise settles to, and in what store, if it is polled
  often enough. Promises come into being in the order of the chain, so all promises behind one of them
  are settled or belong to the chain.
* `poll_due` and `advance_lands` say what one poll and one stretch of a computation do. They use each
  other, and the number in `Due` and `Lands` goes down.
* `finish_lands`: with enough steps the scheduler finishes the computation, and no promise is left.
-/

namespace FieldScript

/-! ## Computations that wait for every promise they make -/

/-- A result that can be observed as one that ends a computation. -/
def Raised.halt {α : Type} (r : Except Raised α) : Except Halt α := r.mapError .raised

/-- What a promise settles to if the computation behind it is done. -/
def Settled.ofResult (r : Except Raised Value) : Change Settled :=
  match r with
  | .ok v => return .fulfilled v
  | .error r => do return .rejected (← Change.raisedValue r)

/-- What a promise of an external function settles to. -/
def Settled.ofAnswer (result : Except Json Json) : Change Settled :=
  match result with
  | .ok j => do return .fulfilled (← Value.ofJson j)
  | .error j => do return .rejected (← Value.ofJson j)

/-- A store with more events in its journal. -/
def Store.recording (s : Store) (events : List Event) : Store :=
  { s with journal := events.foldl Journal.record s.journal }

/-- The continuation of a computation that awaits a promise as soon as it has it. -/
def AwaitsAt {α : Type} (next : PromiseRef → Store → Suspension α)
    (resume : Settled → Store → Suspension α) : Prop :=
  ∀ p s, next p s = .await p s resume

/-- What a computation comes to that awaits every promise as soon as it has it. -/
inductive Lands (run : Job → Comp Value) :
    {α : Type} → Nat → Suspension α → Except Halt α → Store → Prop where
  | done {α : Type} (r : Except Halt α) (s : Store) : Lands run 0 (.done r s) r s
  /-- The answer of an external function is waited for. -/
  | host {α : Type} {n id : Nat} {response : Response} {s t : Store}
      {next : PromiseRef → Store → Suspension α} {resume : Settled → Store → Suspension α}
      {outcome : Settled} {s' : Store} {r : Except Halt α}
      (hnext : AwaitsAt next resume)
      (houtcome : (Settled.ofAnswer response.result).run (s.recording [.start id, .done id]) =
        (outcome, s'))
      (hrest : Lands run n (resume outcome s') r t) :
      Lands run (response.delay + 1 + n) (.spawn (.host id response) s next) r t
  /-- A part of the body runs on its own and is waited for. -/
  | job {α : Type} {m n : Nat} {j : Job} {s t s₁ s₂ : Store}
      {next : PromiseRef → Store → Suspension α} {resume : Settled → Store → Suspension α}
      {result : Except Raised Value} {outcome : Settled} {r : Except Halt α}
      (hnext : AwaitsAt next resume)
      (hjob : Lands run m (run j s) (Raised.halt result) s₁)
      (houtcome : (Settled.ofResult result).run s₁ = (outcome, s₂))
      (hrest : Lands run n (resume outcome s₂) r t) :
      Lands run (m + 1 + n) (.spawn (.job j) s next) r t

namespace Lands

variable {run : Job → Comp Value} {α β : Type} {m n : Nat} {x : Suspension α}
  {f : α → Store → Suspension β} {s t : Store}

theorem awaitsAt_bind {next : PromiseRef → Store → Suspension α}
    {resume : Settled → Store → Suspension α} (h : AwaitsAt next resume) :
    AwaitsAt (fun p s => (next p s).bind f) fun outcome s => (resume outcome s).bind f := by
  intro p s
  show (next p s).bind f = _
  rw [h p s]
  rfl

/-- One computation behind another. -/
theorem bind {a : α} {r : Except Halt β} (hx : Lands run n x (.ok a) s)
    (hf : Lands run m (f a s) r t) : Lands run (n + m) (x.bind f) r t := by
  generalize hok : (Except.ok a : Except Halt α) = result at hx
  induction hx with
  | done result s =>
      subst hok
      simpa [Suspension.bind] using hf
  | host hnext houtcome _ ih =>
      have hrest := Lands.host (awaitsAt_bind hnext) houtcome (ih hf hok)
      rw [← Nat.add_assoc] at hrest
      exact hrest
  | job hnext hjob houtcome _ _ ih =>
      have hrest := Lands.job (awaitsAt_bind hnext) hjob houtcome (ih hf hok)
      rw [← Nat.add_assoc] at hrest
      exact hrest

end Lands

/-! ## Steps of the scheduler -/

/-- A step of the scheduler from one state of a run to another. -/
def Sched.Steps {α : Type} (x : Sched α) (w : World) (a : α) (w' : World) : Prop :=
  x.run w = .ok (a, w')

namespace Sched

variable {α β : Type} {x : Sched α} {f : α → Sched β} {a : α} {b : β} {w w₁ w₂ : World}

theorem Steps.run_bind (hx : x.Steps w a w₁) : (x >>= f).run w = (f a).run w₁ := by
  unfold Steps at hx
  rw [StateT.run_bind, hx]
  rfl

theorem Steps.bind (hx : x.Steps w a w₁) (hf : (f a).Steps w₁ b w₂) : (x >>= f).Steps w b w₂ :=
  hx.run_bind.trans hf

theorem Steps.pure (a : α) (w : World) : (Pure.pure a : Sched α).Steps w a w := rfl

theorem setStore_run_bind {f : Unit → Sched β} {s : Store} :
    (setStore s >>= f).run w = (f ()).run { w with store := s } := rfl

theorem get_run_bind {f : World → Sched β} : ((get : Sched World) >>= f).run w = (f w).run w := rfl

theorem setStore_bind {f : Unit → Sched β} {s : Store} (h : (f ()).Steps { w with store := s } b w₂) :
    (setStore s >>= f).Steps w b w₂ := h

theorem get_bind {f : World → Sched β} (h : (f w).Steps w b w₂) :
    ((get : Sched World) >>= f).Steps w b w₂ := h

end Sched

/-! ## Promises -/

namespace World

/-- The promises with numbers from one up to another are settled. -/
def SettledFrom (w : World) (low high : Nat) : Prop :=
  ∀ i, low ≤ i → i < high → ∃ outcome, w.promises[i]? = some (.settled outcome)

/-- A state of a run behind another, in which the promises below a number are as they were. -/
structure After (w w' : World) (low : Nat) : Prop where
  size : w.promises.size ≤ w'.promises.size
  same : ∀ i < low, w'.promises[i]? = w.promises[i]?
  tracked : ∀ p ∈ w'.tracked, p ∈ w.tracked ∨ p.index < w'.promises.size

theorem After.trans {w w₁ w₂ : World} {low : Nat} (h : After w w₁ low) (h' : After w₁ w₂ low) :
    After w w₂ low := by
  refine ⟨Nat.le_trans h.size h'.size, fun i hi => (h'.same i hi).trans (h.same i hi), fun p hp => ?_⟩
  rcases h'.tracked p hp with hp | hp
  · rcases h.tracked p hp with hp | hp
    · exact .inl hp
    · exact .inr (Nat.lt_of_lt_of_le hp h'.size)
  · exact .inr hp

theorem After.mono {w w' : World} {low low' : Nat} (h : After w w' low) (hle : low' ≤ low) :
    After w w' low' := ⟨h.size, fun i hi => h.same i (Nat.lt_of_lt_of_le hi hle), h.tracked⟩

/-- A state of a run with another store and another slot for a promise. -/
def update (w : World) (p : PromiseRef) (slot : Slot) (s : Store) : World :=
  { w with store := s, promises := w.promises.setIfInBounds p.index slot }

section

variable {w : World} {p : PromiseRef} {slot : Slot} {s : Store}

@[simp] theorem update_size : (w.update p slot s).promises.size = w.promises.size := by
  simp [update]

theorem update_self (h : p.index < w.promises.size) :
    (w.update p slot s).promises[p.index]? = some slot := by
  simp [update, h]

theorem update_ne {i : Nat} (h : p.index ≠ i) :
    (w.update p slot s).promises[i]? = w.promises[i]? := Array.getElem?_setIfInBounds_ne h

theorem after_update : w.After (w.update p slot s) p.index :=
  ⟨Nat.le_of_eq update_size.symm, fun _ hi => update_ne (Nat.ne_of_gt hi), fun _ hq => .inl hq⟩

/-- The promises behind one whose slot changes. -/
theorem settledFrom_update {low high : Nat} (h : w.SettledFrom low high) (hlow : p.index < low) :
    (w.update p slot s).SettledFrom low high := by
  intro i hi hi'
  rw [update_ne (by omega)]
  exact h i hi hi'

/-- The promises from one on that is settled. -/
theorem settledFrom_update_settled {high : Nat} {outcome : Settled} (h : w.SettledFrom (p.index + 1) high)
    (hbound : p.index < w.promises.size) :
    (w.update p (.settled outcome) s).SettledFrom p.index high := by
  intro i hi hi'
  by_cases hp : p.index = i
  · subst hp
    exact ⟨outcome, update_self hbound⟩
  · rw [update_ne hp]
    exact h i (by omega) hi'

end

theorem SettledFrom.append {w : World} {low mid high : Nat} (h : w.SettledFrom low mid)
    (h' : w.SettledFrom mid high) : w.SettledFrom low high := by
  intro i hi hi'
  by_cases hmid : i < mid
  · exact h i hi hmid
  · exact h' i (by omega) hi'

theorem SettledFrom.after {w w' : World} {low high bound : Nat} (h : w.SettledFrom low high)
    (hafter : w.After w' bound) (hle : high ≤ bound) : w'.SettledFrom low high := by
  intro i hi hi'
  rw [hafter.same i (by omega)]
  exact h i hi hi'

end World

/-- The events with which an external function's answer is handed over. -/
def handOver (id : Nat) (started : Bool) : List Event :=
  if started then [.done id] else [.start id, .done id]

/-- A chain of promises that starts with one promise: what it settles to, and in what store, if it is
polled as often as the number says. -/
inductive Due (run : Job → Comp Value) : World → Nat → PromiseRef → Settled → Store → Prop where
  | host {w : World} {p : PromiseRef} {id : Nat} {started : Bool} {response : Response}
      {outcome : Settled} {t : Store}
      (hslot : w.promises[p.index]? = some (.host id started response))
      (hrest : w.SettledFrom (p.index + 1) w.promises.size)
      (houtcome : (Settled.ofAnswer response.result).run (w.store.recording (handOver id started)) =
        (outcome, t)) :
      Due run w (response.delay + 1) p outcome t
  | waiting {w : World} {p q : PromiseRef} {resume : Settled → Store → Suspension Value} {m k : Nat}
      {inner outcome : Settled} {t₁ t₂ t : Store} {result : Except Raised Value}
      (hslot : w.promises[p.index]? = some (.waiting q resume))
      (hlt : p.index < q.index)
      (hbetween : w.SettledFrom (p.index + 1) q.index)
      (hinner : Due run w m q inner t₁)
      (hlands : Lands run k (resume inner t₁) (Raised.halt result) t₂)
      (houtcome : (Settled.ofResult result).run t₂ = (outcome, t)) :
      Due run w (m + 1 + k) p outcome t

/-! ## One poll -/

namespace Scheduler

variable {run : Job → Comp Value} {scheduler : Scheduler} {w w' : World} {p q : PromiseRef}

theorem slot_steps {slot : Slot} (hslot : w.promises[p.index]? = some slot) :
    (Sched.slot p).Steps w slot w := by
  show Except.ok ((w.promises[p.index]?).getD .busy, w) = Except.ok (slot, w)
  rw [hslot]
  rfl

/-- A settled promise stays as it is. -/
theorem pollWith_settled {outcome : Settled} (hslot : w.promises[p.index]? = some (.settled outcome)) :
    (scheduler.pollWith p).Steps w (some outcome) w :=
  (slot_steps hslot).bind rfl

/-- The answer of an external function that needs no more waiting is handed over. -/
theorem pollWith_host_now {id : Nat} {started : Bool} {result : Except Json Json} {outcome : Settled}
    {t : Store} (hslot : w.promises[p.index]? = some (.host id started ⟨result, 0⟩))
    (houtcome : (Settled.ofAnswer result).run (w.store.recording (handOver id started)) = (outcome, t)) :
    (scheduler.pollWith p).Steps w (some outcome) (w.update p (.settled outcome) t) := by
  refine (slot_steps hslot).bind ?_
  cases started <;> cases result <;> cases houtcome <;> rfl

/-- An answer that needs more waiting is asked for in vain once. -/
theorem pollWith_host_later {id delay : Nat} {started : Bool} {result : Except Json Json}
    (hslot : w.promises[p.index]? = some (.host id started ⟨result, delay + 1⟩)) :
    (scheduler.pollWith p).Steps w none (w.update p (.host id true ⟨result, delay⟩)
      (w.store.recording (if started then [] else [.start id]))) := by
  refine (slot_steps hslot).bind ?_
  cases started <;> rfl

/-- A part of the body whose promise is not settled goes on waiting. -/
theorem pollWith_waiting_none {resume : Settled → Store → Suspension Value}
    (hslot : w.promises[p.index]? = some (.waiting q resume))
    (hpoll : (scheduler.poll q).Steps (w.update p .busy w.store) none w') :
    (scheduler.pollWith p).Steps w none (w'.update p (.waiting q resume) w'.store) :=
  (slot_steps hslot).bind (Sched.Steps.bind (a := ()) rfl (hpoll.bind rfl))

/-- A part of the body whose promise is settled goes on. -/
theorem pollWith_waiting_some {resume : Settled → Store → Suspension Value} {inner : Settled}
    {progress : Progress Value} {w₁ w₂ : World} {answer : Option Settled}
    (hslot : w.promises[p.index]? = some (.waiting q resume))
    (hpoll : (scheduler.poll q).Steps (w.update p .busy w.store) (some inner) w₁)
    (hadvance : (scheduler.advance (resume inner w₁.store)).Steps w₁ progress w₂)
    (hnote : (notePromise p progress).Steps w₂ answer w') :
    (scheduler.pollWith p).Steps w answer w' :=
  (slot_steps hslot).bind (Sched.Steps.bind (a := ()) rfl
    (hpoll.bind (Sched.get_bind (hadvance.bind hnote))))

section

variable {α : Type} {resume : Settled → Store → Suspension α} {s : Store} {w₁ w₂ : World}
  {progress : Progress α}

/-- A computation that awaits a settled promise goes on. -/
theorem advance_await_some {outcome : Settled}
    (hpoll : (scheduler.poll p).Steps { w with store := s } (some outcome) w₁)
    (hrest : (scheduler.advance (resume outcome w₁.store)).Steps w₁ progress w₂) :
    (scheduler.advance (.await p s resume)).Steps w progress w₂ := by
  unfold Scheduler.advance
  exact Sched.setStore_bind (hpoll.bind (Sched.get_bind hrest))

/-- A computation that awaits another promise stops there. -/
theorem advance_await_none (hpoll : (scheduler.poll p).Steps { w with store := s } none w₁) :
    (scheduler.advance (.await p s resume)).Steps w (.waiting p resume) w₁ := by
  unfold Scheduler.advance
  exact Sched.setStore_bind (hpoll.bind (Sched.Steps.pure _ _))

/-- A computation that asks for a promise goes on with it. -/
theorem advance_spawn {task : Task} {next : PromiseRef → Store → Suspension α}
    (hstart : (scheduler.start task).Steps { w with store := s } p w₁)
    (hrest : (scheduler.advance (next p w₁.store)).Steps w₁ progress w₂) :
    (scheduler.advance (.spawn task s next)).Steps w progress w₂ := by
  unfold Scheduler.advance
  exact Sched.setStore_bind (hstart.bind (Sched.get_bind hrest))

end

end Scheduler

theorem notePromise_done {p : PromiseRef} {result : Except Raised Value} {outcome : Settled} {w : World}
    {t : Store} (houtcome : (Settled.ofResult result).run w.store = (outcome, t)) :
    (notePromise p (.done result)).Steps w (some outcome) (w.update p (.settled outcome) t) := by
  cases result <;> cases houtcome <;> rfl

theorem notePromise_waiting {p q : PromiseRef} {resume : Settled → Store → Suspension Value}
    {w : World} :
    (notePromise p (.waiting q resume)).Steps w none (w.update p (.waiting q resume) w.store) := rfl

/-! ## Chains -/

namespace Due

variable {run : Job → Comp Value} {w w' : World} {m : Nat} {p : PromiseRef} {outcome : Settled} {t : Store}

theorem pos (h : Due run w m p outcome t) : 0 < m := by
  cases h <;> omega

theorem inBounds (h : Due run w m p outcome t) : p.index < w.promises.size := by
  cases h with
  | host hslot _ _ => exact (Array.getElem?_eq_some_iff.1 hslot).1
  | waiting hslot _ _ _ _ _ => exact (Array.getElem?_eq_some_iff.1 hslot).1

/-- A chain depends on the store and on the promises from its first one on. -/
theorem congr (h : Due run w m p outcome t) (hstore : w'.store = w.store)
    (hsize : w'.promises.size = w.promises.size)
    (hsame : ∀ i, p.index ≤ i → w'.promises[i]? = w.promises[i]?) : Due run w' m p outcome t := by
  induction h with
  | host hslot hrest houtcome =>
      refine Due.host ((hsame _ (Nat.le_refl _)).trans hslot) (fun i hlow hhigh => ?_) ?_
      · rw [hsame i (by omega)]
        exact hrest i hlow (hsize ▸ hhigh)
      · rw [hstore]
        exact houtcome
  | waiting hslot hlt hbetween _ hlands houtcome ih =>
      refine Due.waiting ((hsame _ (Nat.le_refl _)).trans hslot) hlt (fun i hlow hhigh => ?_)
        (ih fun i hi => hsame i (by omega)) hlands houtcome
      rw [hsame i (by omega)]
      exact hbetween i hlow hhigh

end Due

/-- What one poll of the first promise of a chain does: it settles, or less is left to do. -/
def Polled (run : Job → Comp Value) (levels : Nat) (w : World) (m : Nat) (p : PromiseRef)
    (outcome : Settled) (t : Store) : Prop :=
  (∃ w', ((scheduler run levels).poll p).Steps w (some outcome) w' ∧ w'.store = t ∧
    w'.SettledFrom p.index w'.promises.size ∧ w.After w' p.index) ∨
  ∃ w' m', ((scheduler run levels).poll p).Steps w none w' ∧ m' < m ∧ Due run w' m' p outcome t ∧
    w.After w' p.index

/-- What one stretch of a computation does: it is done, or it waits for the first promise of a chain. -/
def Advanced {α : Type} (run : Job → Comp Value) (levels : Nat) (w : World) (n : Nat) (x : Suspension α)
    (r : Except Raised α) (t : Store) : Prop :=
  (∃ w', ((scheduler run levels).advance x).Steps w (.done r) w' ∧ w'.store = t ∧
    w'.SettledFrom w.promises.size w'.promises.size ∧ w.After w' w.promises.size) ∨
  ∃ w' p resume m k inner t₁,
    ((scheduler run levels).advance x).Steps w (.waiting p resume) w' ∧
    w.promises.size ≤ p.index ∧ w'.SettledFrom w.promises.size p.index ∧
    Due run w' m p inner t₁ ∧ Lands run k (resume inner t₁) (Raised.halt r) t ∧ m + k ≤ n ∧
    w.After w' w.promises.size

section

variable {run : Job → Comp Value} {levels : Nat} {w : World} {p : PromiseRef} {outcome : Settled}
  {t : Store}

theorem polled_host {id : Nat} {started : Bool} {response : Response}
    (hslot : w.promises[p.index]? = some (.host id started response))
    (hrest : w.SettledFrom (p.index + 1) w.promises.size)
    (houtcome : (Settled.ofAnswer response.result).run (w.store.recording (handOver id started)) =
      (outcome, t)) :
    Polled run (levels + 1) w (response.delay + 1) p outcome t := by
  have hbound : p.index < w.promises.size := (Array.getElem?_eq_some_iff.1 hslot).1
  obtain ⟨result, delay⟩ := response
  cases delay with
  | zero =>
      refine .inl ⟨_, Scheduler.pollWith_host_now hslot houtcome, rfl, ?_, World.after_update⟩
      rw [World.update_size]
      exact World.settledFrom_update_settled hrest hbound
  | succ delay =>
      refine .inr ⟨_, delay + 1, Scheduler.pollWith_host_later hslot, by simp, ?_, World.after_update⟩
      refine Due.host (World.update_self hbound) ?_ ?_
      · rw [World.update_size]
        exact World.settledFrom_update hrest (by omega)
      · cases started <;> exact houtcome

/-- What polling a part of the body does, given what polling the promise it waits for does and what the
rest of the computation does. -/
theorem polled_waiting {q : PromiseRef} {resume : Settled → Store → Suspension Value} {m k : Nat}
    {inner : Settled} {t₁ t₂ : Store} {result : Except Raised Value}
    (hslot : w.promises[p.index]? = some (.waiting q resume)) (hlt : p.index < q.index)
    (hbetween : w.SettledFrom (p.index + 1) q.index) (hinner : Due run w m q inner t₁)
    (hlands : Lands run k (resume inner t₁) (Raised.halt result) t₂)
    (houtcome : (Settled.ofResult result).run t₂ = (outcome, t))
    (hpoll : ∀ w, Due run w m q inner t₁ → Polled run levels w m q inner t₁)
    (hadvance : ∀ w, Advanced run levels w k (resume inner t₁) result t₂) :
    Polled run (levels + 1) w (m + 1 + k) p outcome t := by
  have hbound : p.index < w.promises.size := (Array.getElem?_eq_some_iff.1 hslot).1
  have hdue : Due run (w.update p .busy w.store) m q inner t₁ :=
    hinner.congr rfl World.update_size fun i hi => World.update_ne (by omega)
  have hmid : (w.update p .busy w.store).SettledFrom (p.index + 1) q.index :=
    World.settledFrom_update hbetween (by omega)
  have hqbound : q.index < w.promises.size := hinner.inBounds
  rcases hpoll _ hdue with ⟨w₁, hstep, hstore, hsettled, hafter⟩ | ⟨w₁, m', hstep, hless, hdue', hafter⟩
  · -- the promise is settled, and the computation goes on
    subst hstore
    have hsize₁ : w.promises.size ≤ w₁.promises.size := World.update_size ▸ hafter.size
    have hbehind : w₁.SettledFrom (p.index + 1) w₁.promises.size :=
      (hmid.after hafter (Nat.le_refl _)).append hsettled
    have hafter₁ : w.After w₁ p.index := World.after_update.trans (hafter.mono (by omega))
    rcases hadvance w₁ with ⟨w₂, hadv, hstore, hsettled', hafter'⟩ |
      ⟨w₂, p₂, resume₂, m₂, k₂, inner₂, t₂', hadv, hge, hsettled', hdue₂, hlands₂, hle, hafter'⟩
    · subst hstore
      have hstep' := Scheduler.pollWith_waiting_some hslot hstep hadv (notePromise_done houtcome)
      have hafter₂ : w.After w₂ p.index := hafter₁.trans (hafter'.mono (by omega))
      refine .inl ⟨_, hstep', rfl, ?_, hafter₂.trans World.after_update⟩
      rw [World.update_size]
      exact World.settledFrom_update_settled
        ((hbehind.after hafter' (Nat.le_refl _)).append hsettled') (by have := hafter'.size; omega)
    · have hstep' := Scheduler.pollWith_waiting_some hslot hstep hadv notePromise_waiting
      have hafter₂ : w.After w₂ p.index := hafter₁.trans (hafter'.mono (by omega))
      have hsize₂ := hafter'.size
      refine .inr ⟨_, m₂ + 1 + k₂, hstep', ?_, ?_, hafter₂.trans World.after_update⟩
      · have := hinner.pos
        omega
      · refine Due.waiting (World.update_self (by omega)) (by omega) ?_
          (hdue₂.congr rfl World.update_size fun i hi => World.update_ne (by omega)) hlands₂ houtcome
        exact World.settledFrom_update ((hbehind.after hafter' (Nat.le_refl _)).append hsettled')
          (by omega)
  · have hstep' := Scheduler.pollWith_waiting_none hslot hstep
    have hsize₁ : w.promises.size ≤ w₁.promises.size := World.update_size ▸ hafter.size
    have hafter₁ : w.After w₁ p.index := World.after_update.trans (hafter.mono (by omega))
    refine .inr ⟨_, m' + 1 + k, hstep', by omega, ?_, hafter₁.trans World.after_update⟩
    refine Due.waiting (World.update_self (by omega)) hlt ?_
      (hdue'.congr rfl World.update_size fun i hi => World.update_ne (by omega)) hlands houtcome
    exact World.settledFrom_update (hmid.after hafter (Nat.le_refl _)) (by omega)

end

/-! ## One stretch of a computation -/

section

variable {run : Job → Comp Value} {levels : Nat} {w : World} {α : Type}

/-- A state of a run with a new promise, which is remembered. -/
def World.withPromise (w : World) (slot : Slot) (s : Store) : World :=
  { store := s, promises := w.promises.push slot, tracked := w.tracked.push ⟨w.promises.size⟩ }

theorem World.after_withPromise {slot : Slot} {s : Store} :
    w.After (w.withPromise slot s) w.promises.size := by
  refine ⟨by simp [World.withPromise], fun i hi => ?_, fun p hp => ?_⟩
  · simp only [World.withPromise]
    rw [Array.getElem?_push_lt hi, Array.getElem?_eq_getElem hi]
  · simp only [World.withPromise, Array.mem_push] at hp ⊢
    rcases hp with hp | rfl
    · exact .inl hp
    · exact .inr (by simp)

theorem start_host {id : Nat} {response : Response} {s : Store} :
    ((scheduler run (levels + 1)).start (.host id response)).Steps { w with store := s }
      ⟨w.promises.size⟩ (w.withPromise (.host id false response) s) := rfl

/-- The chain of a promise that was just asked for. -/
theorem due_host {id : Nat} {response : Response} {s s' : Store} {outcome : Settled}
    (houtcome : (Settled.ofAnswer response.result).run (s.recording [.start id, .done id]) =
      (outcome, s')) :
    Due run (w.withPromise (.host id false response) s) (response.delay + 1) ⟨w.promises.size⟩ outcome
      s' := by
  have hslot : (w.withPromise (.host id false response) s).promises[w.promises.size]? =
      some (.host id false response) := by simp [World.withPromise]
  have hnone : (w.withPromise (.host id false response) s).SettledFrom (w.promises.size + 1)
      (w.withPromise (.host id false response) s).promises.size := by
    intro i hlow hhigh
    simp only [World.withPromise, Array.size_push] at hhigh
    omega
  exact Due.host hslot hnone houtcome

/-- A state of a run with a promise that is remembered. -/
def World.track (w : World) (p : PromiseRef) : World := { w with tracked := w.tracked.push p }

theorem World.After.track {w' : World} {low : Nat} {p : PromiseRef} (h : w.After w' low)
    (hp : p.index < w'.promises.size) : w.After (w'.track p) low := by
  refine ⟨h.size, h.same, fun q hq => ?_⟩
  rcases Array.mem_push.1 hq with hq | rfl
  · exact h.tracked q hq
  · exact .inr hp

theorem startWith_job {j : Job} {progress : Progress Value} {s : Store} {answer : Option Settled}
    {w₁ w₂ : World} (hadvance : ((scheduler run levels).advance (run j s)).Steps
      { w with store := s, promises := w.promises.push .busy } progress w₁)
    (hnote : (notePromise ⟨w.promises.size⟩ progress).Steps w₁ answer w₂) :
    ((scheduler run (levels + 1)).start (.job j)).Steps { w with store := s } ⟨w.promises.size⟩
      (w₂.track ⟨w.promises.size⟩) := by
  have hslot : (Sched.addSlot .busy).Steps { w with store := s } ⟨w.promises.size⟩
      { w with store := s, promises := w.promises.push .busy } := rfl
  show (((scheduler run levels).startWith run (.job j))).Steps _ _ _
  unfold Scheduler.startWith
  refine hslot.bind (Sched.get_bind (hadvance.bind (hnote.bind ?_)))
  rfl

/-- A part of the body that is started: it is settled already, or its promise is the first one of a
chain. -/
theorem start_job {m : Nat} {j : Job} {s s₁ s₂ : Store} {result : Except Raised Value}
    {outcome : Settled} (houtcome : (Settled.ofResult result).run s₁ = (outcome, s₂))
    (hadvance : ∀ w, Advanced run levels w m (run j s) result s₁) :
    ∃ w', ((scheduler run (levels + 1)).start (.job j)).Steps { w with store := s }
      ⟨w.promises.size⟩ w' ∧ w.After w' w.promises.size ∧
      ((w'.store = s₂ ∧ w'.promises[w.promises.size]? = some (.settled outcome) ∧
        w'.SettledFrom w.promises.size w'.promises.size) ∨
      ∃ m', m' ≤ m + 1 ∧ Due run w' m' ⟨w.promises.size⟩ outcome s₂) := by
  let p : PromiseRef := ⟨w.promises.size⟩
  let w₀ : World := { w with store := s, promises := w.promises.push .busy }
  have hp : p.index = w.promises.size := rfl
  have hsize₀ : w₀.promises.size = p.index + 1 := Array.size_push _
  have hafter₀ : w.After w₀ p.index := by
    refine ⟨by omega, fun i hi => ?_, fun p hp => .inl hp⟩
    show (w.promises.push .busy)[i]? = _
    rw [Array.getElem?_push_lt hi, Array.getElem?_eq_getElem hi]
  rcases hadvance w₀ with ⟨w₁, hadv, hstore, hsettled, hafter⟩ |
    ⟨w₁, q, resume, m', k, inner, t₁, hadv, hge, hsettled, hdue, hlands, hle, hafter⟩
  · subst hstore
    have hsize := hafter.size
    have hupdate : w₁.After (w₁.update p (.settled outcome) s₂) p.index := World.after_update
    have hbound : p.index < w₁.promises.size := by omega
    have hall : (w₁.update p (.settled outcome) s₂).SettledFrom p.index w₁.promises.size :=
      World.settledFrom_update_settled (hsize₀ ▸ hsettled) hbound
    have hself : (w₁.update p (.settled outcome) s₂).promises[p.index]? = some (.settled outcome) :=
      World.update_self hbound
    refine ⟨_, startWith_job hadv (notePromise_done houtcome),
      ((hafter₀.trans (hafter.mono (by omega))).trans hupdate).track ?_, .inl ⟨rfl, hself, ?_⟩⟩
    · rw [World.update_size]
      exact hbound
    · show (w₁.update p (.settled outcome) s₂).SettledFrom p.index
        (w₁.update p (.settled outcome) s₂).promises.size
      rw [World.update_size]
      exact hall
  · have hsize := hafter.size
    have hupdate : w₁.After (w₁.update p (.waiting q resume) w₁.store) p.index := World.after_update
    have hbound : p.index < w₁.promises.size := by omega
    have hdue' : Due run (w₁.update p (.waiting q resume) w₁.store) m' q inner t₁ :=
      hdue.congr rfl World.update_size fun i hi => World.update_ne (by omega)
    have hfirst : Due run (w₁.update p (.waiting q resume) w₁.store) (m' + 1 + k) p outcome s₂ :=
      Due.waiting (World.update_self hbound) (by omega)
        (World.settledFrom_update (hsize₀ ▸ hsettled) (by omega)) hdue' hlands houtcome
    refine ⟨_, startWith_job hadv notePromise_waiting,
      ((hafter₀.trans (hafter.mono (by omega))).trans hupdate).track ?_,
      .inr ⟨m' + 1 + k, by omega, hfirst.congr rfl rfl fun _ _ => rfl⟩⟩
    rw [World.update_size]
    exact hbound

/-- A computation that awaits the first promise of a chain, given what the rest of it does. -/
theorem advanced_await {n m : Nat} {p : PromiseRef} {resume : Settled → Store → Suspension α} {w₀ : World}
    {s : Store} {outcome : Settled} {s' t : Store} {r : Except Raised α} (hs : w.store = s)
    (hnew : w₀.promises.size ≤ p.index)
    (hsettled : w.SettledFrom w₀.promises.size p.index) (hafter : w₀.After w w₀.promises.size)
    (hpoll : Polled run levels w m p outcome s')
    (hlands : Lands run n (resume outcome s') (Raised.halt r) t)
    (hrest : ∀ w, Advanced run levels w n (resume outcome s') r t) :
    (∃ w', ((scheduler run levels).advance (.await p s resume)).Steps w (.done r) w' ∧
      w'.store = t ∧ w'.SettledFrom w₀.promises.size w'.promises.size ∧
      w₀.After w' w₀.promises.size) ∨
    ∃ w' q resume' m' k inner t₁,
      ((scheduler run levels).advance (.await p s resume)).Steps w (.waiting q resume') w' ∧
      w₀.promises.size ≤ q.index ∧ w'.SettledFrom w₀.promises.size q.index ∧
      Due run w' m' q inner t₁ ∧ Lands run k (resume' inner t₁) (Raised.halt r) t ∧
      m' + k ≤ m + n ∧ w₀.After w' w₀.promises.size := by
  subst hs
  rcases hpoll with ⟨w₁, hstep, hstore, hsettled₁, hafter₁⟩ | ⟨w₁, m', hstep, hless, hdue, hafter₁⟩
  · subst hstore
    have hall : w₁.SettledFrom w₀.promises.size w₁.promises.size :=
      (hsettled.after hafter₁ (Nat.le_refl _)).append hsettled₁
    have hafter₂ : w₀.After w₁ w₀.promises.size := hafter.trans (hafter₁.mono hnew)
    have hsize := hafter₂.size
    rcases hrest w₁ with ⟨w₂, hadv, hstore, hsettled₂, hafter'⟩ |
      ⟨w₂, q, resume', m', k, inner, t₁, hadv, hge, hsettled₂, hdue, hlands', hle, hafter'⟩
    · exact .inl ⟨w₂, Scheduler.advance_await_some hstep hadv, hstore,
        (hall.after hafter' (Nat.le_refl _)).append hsettled₂, hafter₂.trans (hafter'.mono hsize)⟩
    · exact .inr ⟨w₂, q, resume', m', k, inner, t₁, Scheduler.advance_await_some hstep hadv,
        Nat.le_trans hsize hge, (hall.after hafter' (Nat.le_refl _)).append hsettled₂, hdue, hlands',
        by omega, hafter₂.trans (hafter'.mono hsize)⟩
  · exact .inr ⟨w₁, p, resume, m', n, outcome, s', Scheduler.advance_await_none hstep, hnew,
      hsettled.after hafter₁ (Nat.le_refl _), hdue, hlands, by omega, hafter.trans (hafter₁.mono hnew)⟩

/-- A computation that is done. -/
theorem advanced_done {r : Except Raised α} {s : Store} :
    Advanced run levels w 0 (.done (Raised.halt r) s) r s := by
  refine .inl ⟨{ w with store := s }, ?_, rfl, fun i hlow hhigh => ?_, ?_⟩
  · cases r <;> rfl
  · exact absurd hhigh (Nat.not_lt.2 hlow)
  · exact ⟨Nat.le_refl _, fun _ _ => rfl, fun _ hp => .inl hp⟩

/-- A computation that asks for a promise and awaits it, given that the promise is the first one of a
chain or settled, and what the rest of the computation does. -/
theorem advanced_spawn {n m : Nat} {task : Task} {next : PromiseRef → Store → Suspension α}
    {resume : Settled → Store → Suspension α} {w₁ : World} {s s' t : Store} {outcome : Settled}
    {r : Except Raised α} (hnext : AwaitsAt next resume)
    (hstart : ((scheduler run levels).start task).Steps { w with store := s } ⟨w.promises.size⟩ w₁)
    (hafter : w.After w₁ w.promises.size)
    (hpoll : Polled run levels w₁ m ⟨w.promises.size⟩ outcome s')
    (hlands : Lands run n (resume outcome s') (Raised.halt r) t)
    (hrest : ∀ w, Advanced run levels w n (resume outcome s') r t) :
    Advanced run levels w (m + n) (.spawn task s next) r t := by
  have hnone : w₁.SettledFrom w.promises.size w.promises.size :=
    fun i hlow hhigh => absurd hhigh (Nat.not_lt.2 hlow)
  have hawait := advanced_await (p := ⟨w.promises.size⟩) rfl (Nat.le_refl _) hnone hafter hpoll hlands
    hrest
  rw [← hnext ⟨w.promises.size⟩ w₁.store] at hawait
  rcases hawait with ⟨w₂, hadv, hdone⟩ | ⟨w₂, q, resume', m', k, inner, t₁, hadv, hwaits⟩
  · exact .inl ⟨w₂, Scheduler.advance_spawn hstart hadv, hdone⟩
  · exact .inr ⟨w₂, q, resume', m', k, inner, t₁, Scheduler.advance_spawn hstart hadv, hwaits⟩

end

/-! ## Chains and computations of any length -/

section

variable {run : Job → Comp Value}

/-- What one poll and one stretch of a computation do, for all chains and computations up to a size. -/
theorem poll_and_advance (i : Nat) :
    (∀ levels w m p outcome t, m ≤ i → m ≤ levels → Due run w m p outcome t →
      Polled run levels w m p outcome t) ∧
    ∀ levels w n (x : Suspension Value) r t, n ≤ i → n ≤ levels → Lands run n x (Raised.halt r) t →
      Advanced run levels w n x r t := by
  induction i with
  | zero =>
      refine ⟨fun levels w m p outcome t hm _ hdue => ?_, fun levels w n x r t hn _ hlands => ?_⟩
      · have := hdue.pos
        omega
      · generalize hr : Raised.halt r = result at hlands
        cases hlands with
        | done => subst hr; exact advanced_done
        | host => omega
        | job => omega
  | succ i ih =>
      obtain ⟨ihpoll, ihadvance⟩ := ih
      have hpolled : ∀ levels w m p outcome t, m ≤ i + 1 → m ≤ levels → Due run w m p outcome t →
          Polled run levels w m p outcome t := by
        intro levels w m p outcome t hm hlevels hdue
        obtain ⟨levels, rfl⟩ : ∃ k, levels = k + 1 := ⟨levels - 1, by have := hdue.pos; omega⟩
        cases hdue with
        | host hslot hrest houtcome => exact polled_host hslot hrest houtcome
        | waiting hslot hlt hbetween hinner hlands houtcome =>
            exact polled_waiting hslot hlt hbetween hinner hlands houtcome
              (fun w hdue => ihpoll levels w _ _ _ _ (by omega) (by omega) hdue)
              (fun w => ihadvance levels w _ _ _ _ (by omega) (by omega) hlands)
      refine ⟨hpolled, fun levels w n x r t hn hlevels hlands => ?_⟩
      generalize hr : Raised.halt r = result at hlands
      cases hlands with
      | done => subst hr; exact advanced_done
      | host hnext houtcome hrest =>
          subst hr
          obtain ⟨levels, rfl⟩ : ∃ k, levels = k + 1 := ⟨levels - 1, by omega⟩
          exact advanced_spawn hnext start_host World.after_withPromise
            (hpolled _ _ _ _ _ _ (by omega) (by omega) (due_host houtcome)) hrest
            fun w => ihadvance _ w _ _ _ _ (by omega) (by omega) hrest
      | @job _ m n _ _ _ _ s₂ _ _ _ outcome _ hnext hjob houtcome hrest =>
          subst hr
          obtain ⟨levels, rfl⟩ : ∃ k, levels = k + 1 := ⟨levels - 1, by omega⟩
          obtain ⟨w₁, hstart, hafter, hstarted⟩ := start_job (w := w) houtcome
            fun w => ihadvance levels w _ _ _ _ (by omega) (by omega) hjob
          have hpoll : Polled run (levels + 1) w₁ (m + 1) ⟨w.promises.size⟩ outcome s₂ := by
            rcases hstarted with ⟨hstore, hslot, hsettled⟩ | ⟨m', hle, hdue⟩
            · exact .inl ⟨w₁, Scheduler.pollWith_settled hslot, hstore, hsettled,
                Nat.le_refl _, fun _ _ => rfl, fun _ hp => .inl hp⟩
            · rcases hpolled (levels + 1) w₁ m' _ _ _ (by omega) (by omega) hdue with
                hdone | ⟨w₂, k, hstep, hless, hrest⟩
              · exact .inl hdone
              · exact .inr ⟨w₂, k, hstep, by omega, hrest⟩
          exact advanced_spawn hnext hstart hafter hpoll hrest
            fun w => ihadvance _ w _ _ _ _ (by omega) (by omega) hrest

/-- Polling the first promise of a chain. -/
theorem poll_due {levels m : Nat} {w : World} {p : PromiseRef} {outcome : Settled} {t : Store}
    (hlevels : m ≤ levels) (h : Due run w m p outcome t) : Polled run levels w m p outcome t :=
  (poll_and_advance m).1 levels w m p outcome t (Nat.le_refl _) hlevels h

/-- A part of the body goes on as far as it can. -/
theorem advance_lands {levels n : Nat} {w : World} {x : Suspension Value} {r : Except Raised Value}
    {t : Store} (hlevels : n ≤ levels) (h : Lands run n x (Raised.halt r) t) :
    Advanced run levels w n x r t :=
  (poll_and_advance n).2 levels w n x r t (Nat.le_refl _) hlevels h

end

end FieldScript
