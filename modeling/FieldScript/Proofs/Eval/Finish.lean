import FieldScript.Eval.Invoke
import FieldScript.Proofs.Eval.Drive

/-!
# Runs that await every promise

A computation that awaits every promise as soon as it has it is brought to its end by a run with enough
steps, and the run leaves no promise over.

## Strategy

* `complete_due`: asking for a promise until it is settled takes as many rounds as its chain is long.
* `start_completes`: what is asked for and awaited at once is settled then, and all other promises are as
  they were.
* `finish_lands` follows the computation, and `drain_settled` finds nothing left to do.
-/

namespace FieldScript

variable {run : Job → Comp Value} {levels rounds : Nat} {w : World}

/-- A promise is asked for until it is settled. -/
theorem complete_due (levels rounds : Nat) {m : Nat} {p : PromiseRef} {outcome : Settled} {t : Store}
    (hlevels : m ≤ levels) (hrounds : m ≤ rounds) (h : Due run w m p outcome t) :
    ∃ w', ((scheduler run levels).complete rounds p).Steps w outcome w' ∧ w'.store = t ∧
      w'.SettledFrom p.index w'.promises.size ∧ w.After w' p.index := by
  induction rounds generalizing m w with
  | zero =>
      have := h.pos
      omega
  | succ rounds ih =>
      rcases poll_due hlevels h with ⟨w₁, hstep, hdone⟩ | ⟨w₁, m', hstep, hless, hdue, hafter⟩
      · exact ⟨w₁, hstep.bind rfl, hdone⟩
      · obtain ⟨w₂, hrest, hstore, hsettled, hafter'⟩ := ih (by omega) (by omega) hdue
        exact ⟨w₂, hstep.bind hrest, hstore, hsettled, hafter.trans hafter'⟩

/-- A settled promise is asked for once. -/
theorem complete_settled {p : PromiseRef} {outcome : Settled}
    (h : w.promises[p.index]? = some (.settled outcome)) :
    ((scheduler run (levels + 1)).complete (rounds + 1) p).Steps w outcome w := by
  have hpoll : ((scheduler run (levels + 1)).poll p).Steps w (some outcome) w :=
    Scheduler.pollWith_settled h
  exact hpoll.bind rfl

section

variable {α : Type} {s t : Store} {resume : Settled → Store → Suspension α}
  {next : PromiseRef → Store → Suspension α} {task : Task}

/-- A run of a computation that ends in a store with all its promises settled. -/
def Sched.EndsIn (x : Sched (Except Raised α)) (w : World) (r : Except Raised α) (t : Store) : Prop :=
  ∃ w', x.Steps w r w' ∧ w'.store = t ∧ w'.SettledFrom w.promises.size w'.promises.size ∧
    w.After w' w.promises.size

/-- Where a run of a computation ends: with a result, or without one. -/
def Sched.Ends (x : Sched (Except Raised α)) (w : World) (r : Except Halt α) (t : Store) : Prop :=
  match r with
  | .ok a => x.EndsIn w (.ok a) t
  | .error (.raised e) => x.EndsIn w (.error e) t
  | .error (.aborted a) => x.run w = .error a

theorem finish_done {r : Except Halt α} :
    ((scheduler run levels).finish rounds (.done r s)).Ends w r s := by
  have hnone : ∀ w' : World, w'.SettledFrom w'.promises.size w'.promises.size :=
    fun w' i hlow hhigh => absurd hhigh (Nat.not_lt.2 hlow)
  have hafter : w.After { w with store := s } w.promises.size :=
    ⟨Nat.le_refl _, fun _ _ => rfl, fun _ hp => .inl hp⟩
  match r with
  | .ok a => exact ⟨{ w with store := s }, rfl, rfl, hnone _, hafter⟩
  | .error (.raised e) => exact ⟨{ w with store := s }, rfl, rfl, hnone _, hafter⟩
  | .error (.aborted a) => rfl

/-- What is asked for is settled when it was awaited: what remains is the rest of the computation. -/
theorem finish_spawn {p : PromiseRef} {w₁ w₂ : World} {outcome : Settled} {r : Except Halt α}
    (hnext : AwaitsAt next resume)
    (hstart : ((scheduler run levels).start task).Steps { w with store := s } p w₁)
    (hcomplete : ((scheduler run levels).complete rounds p).Steps w₁ outcome w₂)
    (hsettled : w₂.SettledFrom w.promises.size w₂.promises.size)
    (hafter : w.After w₂ w.promises.size)
    (hrest : ((scheduler run levels).finish rounds (resume outcome w₂.store)).Ends w₂ r t) :
    ((scheduler run levels).finish rounds (.spawn task s next)).Ends w r t := by
  have hrun : ((scheduler run levels).finish rounds (.spawn task s next)).run w =
      ((scheduler run levels).finish rounds (resume outcome w₂.store)).run w₂ := by
    have hspawn : ((scheduler run levels).finish rounds (.spawn task s next)).run w =
        ((scheduler run levels).finish rounds (next p w₁.store)).run w₁ := by
      rw [Scheduler.finish, Sched.setStore_run_bind, hstart.run_bind, Sched.get_run_bind]
    have hawait : ((scheduler run levels).finish rounds (.await p w₁.store resume)).run w₁ =
        ((scheduler run levels).finish rounds (resume outcome w₂.store)).run w₂ := by
      rw [Scheduler.finish, Sched.setStore_run_bind, hcomplete.run_bind, Sched.get_run_bind]
    rw [hspawn, hnext p w₁.store, hawait]
  have hpasses : ∀ r, ((scheduler run levels).finish rounds (resume outcome w₂.store)).EndsIn w₂ r t →
      ((scheduler run levels).finish rounds (.spawn task s next)).EndsIn w r t := by
    rintro r ⟨w₃, hstep, hstore, hsettled', hafter'⟩
    exact ⟨w₃, hrun.trans hstep, hstore, (hsettled.after hafter' (Nat.le_refl _)).append hsettled',
      hafter.trans (hafter'.mono hafter.size)⟩
  match r with
  | .ok a => exact hpasses _ hrest
  | .error (.raised e) => exact hpasses _ hrest
  | .error (.aborted a) => exact hrun.trans hrest

/-- A run of a computation with enough steps ends where the computation lands. -/
theorem finish_lands {n : Nat} {x : Suspension α} {r : Except Halt α} (hlevels : n ≤ levels)
    (hrounds : n ≤ rounds) (h : Lands run n x r t) :
    ((scheduler run levels).finish rounds x).Ends w r t := by
  induction h generalizing w with
  | done r s => exact finish_done
  | host hnext houtcome _ ih =>
      obtain ⟨levels, rfl⟩ : ∃ k, levels = k + 1 := ⟨levels - 1, by omega⟩
      have hdue : Due run (w.withPromise _ _) _ ⟨w.promises.size⟩ _ _ := due_host houtcome
      obtain ⟨w₂, hcomplete, hstore, hsettled, hafter⟩ :=
        complete_due (levels + 1) rounds (by omega) (by omega) hdue
      subst hstore
      exact finish_spawn hnext start_host hcomplete hsettled (World.after_withPromise.trans hafter)
        (ih (by omega) (by omega))
  | job hnext hjob houtcome hrest _ ih =>
      obtain ⟨levels, rfl⟩ : ∃ k, levels = k + 1 := ⟨levels - 1, by omega⟩
      obtain ⟨rounds, rfl⟩ : ∃ k, rounds = k + 1 := ⟨rounds - 1, by omega⟩
      have hadvance : ∀ w, Advanced run levels w _ _ _ _ := fun w => advance_lands (by omega) hjob
      obtain ⟨w₁, hstart, hafter, hstarted⟩ := start_job (w := w) houtcome hadvance
      rcases hstarted with ⟨hstore, hslot, hsettled⟩ | ⟨m', hle, hdue⟩
      · subst hstore
        exact finish_spawn hnext hstart (complete_settled hslot) hsettled hafter
          (ih (by omega) (by omega))
      · obtain ⟨w₂, hcomplete, hstore, hsettled, hafter'⟩ :=
          complete_due (levels + 1) (rounds + 1) (by omega) (by omega) hdue
        subst hstore
        exact finish_spawn hnext hstart hcomplete hsettled (hafter.trans hafter')
          (ih (by omega) (by omega))

end

/-! ## Nothing is left over -/

/-- Asking for promises that are settled changes nothing. -/
theorem completeAll_settled {batch : List PromiseRef}
    (h : ∀ p ∈ batch, ∃ outcome, w.promises[p.index]? = some (.settled outcome)) :
    (forIn batch PUnit.unit fun p _ => do
      let _ ← (scheduler run (levels + 1)).complete (rounds + 1) p
      pure (ForInStep.yield PUnit.unit) : Sched PUnit).Steps w PUnit.unit w := by
  induction batch with
  | nil => rfl
  | cons p batch ih =>
      obtain ⟨outcome, hslot⟩ := h p List.mem_cons_self
      have hfirst : ((scheduler run (levels + 1)).complete (rounds + 1) p).Steps w outcome w :=
        complete_settled hslot
      rw [List.forIn_cons]
      refine Sched.Steps.bind (a := ForInStep.yield PUnit.unit) (hfirst.bind rfl) ?_
      exact ih fun q hq => h q (List.mem_cons_of_mem p hq)

/-- A round of settling what is left over. -/
theorem drain_succ {scheduler : Scheduler} {batches : Nat} :
    (scheduler.drain rounds (batches + 1)).run w =
      if w.tracked.isEmpty then .ok ((), w)
      else (do
        forIn w.tracked PUnit.unit fun p _ => do
          let _ ← scheduler.complete rounds p
          pure (ForInStep.yield PUnit.unit)
        scheduler.drain rounds batches : Sched Unit).run { w with tracked := #[] } := by
  rw [Scheduler.drain, Sched.get_run_bind]
  dsimp only
  by_cases h : w.tracked.isEmpty
  · rw [if_pos h, if_pos h]
    rfl
  · rw [if_neg h, if_neg h]
    rfl

/-- If all promises are settled there is nothing left to do. -/
theorem drain_settled {batches : Nat} (hsettled : w.SettledFrom 0 w.promises.size)
    (htracked : ∀ p ∈ w.tracked, p.index < w.promises.size) :
    ∃ w', ((scheduler run (levels + 1)).drain (rounds + 1) (batches + 2)).Steps w () w' ∧
      w'.store = w.store := by
  by_cases hempty : w.tracked.isEmpty
  · refine ⟨w, drain_succ.trans ?_, rfl⟩
    rw [if_pos hempty]
  · have hbatch : ∀ p ∈ w.tracked.toList, ∃ outcome,
        ({ w with tracked := #[] } : World).promises[p.index]? = some (.settled outcome) :=
      fun p hp => hsettled p.index (Nat.zero_le _) (htracked p (Array.mem_def.2 hp))
    have hlast : ((scheduler run (levels + 1)).drain (rounds + 1) (batches + 1)).Steps
        { w with tracked := #[] } () { w with tracked := #[] } := drain_succ
    refine ⟨{ w with tracked := #[] }, drain_succ.trans ?_, rfl⟩
    rw [if_neg hempty, ← Array.forIn_toList]
    exact (completeAll_settled hbatch).bind hlast

/-- A run lets a computation go on until it is done and then settles what is left over. -/
theorem Comp.run_of_steps {α : Type} {fuel : Nat} {x : Comp α} {s : Store} {r : Except Raised α} {w₁ w₂ : World}
    (hfinish : ((scheduler run fuel).finish fuel (x s)).Steps ⟨s, #[], #[]⟩ r w₁)
    (hdrain : ((scheduler run fuel).drain fuel fuel).Steps w₁ () w₂) : x.run run fuel s = .ok (r, w₂.store) := by
  have hsched : (do
      let result ← (scheduler run fuel).finish fuel (x s)
      (scheduler run fuel).drain fuel fuel
      return result : Sched (Except Raised α)).Steps ⟨s, #[], #[]⟩ r w₂ :=
    hfinish.bind (hdrain.bind (Sched.Steps.pure r w₂))
  unfold Comp.run
  rw [Sched.Steps] at hsched
  simp only [hsched]
  rfl

/-- A run of a computation with enough steps ends where the computation lands. -/
theorem Comp.run_lands {α : Type} {fuel n : Nat} {x : Comp α} {s t : Store} {r : Except Raised α}
    (hfuel : n + 2 ≤ fuel) (h : Lands run n (x s) (Raised.halt r) t) :
    x.run run fuel s = .ok (r, t) := by
  obtain ⟨fuel, rfl⟩ : ∃ k, fuel = k + 2 := ⟨fuel - 2, by omega⟩
  have hends : ((scheduler run (fuel + 2)).finish (fuel + 2) (x s)).EndsIn ⟨s, #[], #[]⟩ r t := by
    cases r <;> exact finish_lands (by omega) (by omega) h
  obtain ⟨w₁, hfinish, rfl, hsettled, hafter⟩ := hends
  have htracked : ∀ p ∈ w₁.tracked, p.index < w₁.promises.size := by
    intro p hp
    rcases hafter.tracked p hp with hp | hp
    · simp at hp
    · exact hp
  obtain ⟨w₂, hdrain, hstore⟩ :
      ∃ w₂, ((scheduler run (fuel + 2)).drain (fuel + 2) (fuel + 2)).Steps w₁ () w₂ ∧
        w₂.store = w₁.store := drain_settled hsettled htracked
  rw [← hstore]
  exact Comp.run_of_steps hfinish hdrain

end FieldScript
