import FieldScript.Proofs.Eval.Crowds

/-!
# What a promise of several outcomes comes to

Whatever the parts of a body do meanwhile, a promise that waits for several values is fulfilled with a new array of what
the values come to, in their order, or rejected as one of them is. How the values are polled, all together or in turn,
makes no difference to that.

Strategy:

* `World.Retains`: a later state of a run, in which the promises that were settled are settled as they were.
* `Scheduler.Retaining`: polling a promise and making one lead to such states, and a poll that finds an outcome leaves the
  promise settled with it. This passes from a scheduler to the one that goes down one level more
  (`scheduler_retaining`).
* `World.Gathering`: the state of a promise of several outcomes that is not settled yet. What is known of its values is
  right, and stays so.
* `complete_gathers`: a promise of several outcomes that is polled until it is settled.
-/

namespace FieldScript

/-! ## Settled promises -/

/-- The states of promises that polling other promises does not change. -/
def Slot.Kept : Slot → Prop
  | .settled _ | .busy => True
  | _ => False

namespace World

/-- A state of a run behind another: a promise that was settled or busy is as it was. -/
structure Retains (w w' : World) : Prop where
  size : w.promises.size ≤ w'.promises.size
  kept : ∀ {i : Nat} {slot : Slot}, slot.Kept → w.promises[i]? = some slot → w'.promises[i]? = some slot

/-- What a value comes to: a promise to what it is settled with, and any other value to itself. -/
inductive Comes (w : World) : Value → Settled → Prop where
  | promise {p : PromiseRef} {outcome : Settled} (hslot : w.promises[p.index]? = some (.settled outcome)) :
      w.Comes (.promise p) outcome
  | plain {v : Value} (hplain : ∀ p, v ≠ .promise p) : w.Comes v (.fulfilled v)

variable {w w₁ w' : World} {p : PromiseRef} {slot : Slot} {s : Store}

theorem Retains.refl (w : World) : w.Retains w := ⟨Nat.le_refl _, fun _ => id⟩

theorem Retains.trans (h : w.Retains w₁) (h' : w₁.Retains w') : w.Retains w' :=
  ⟨Nat.le_trans h.size h'.size, fun hkept hslot => h'.kept hkept (h.kept hkept hslot)⟩

theorem Retains.busy {i : Nat} (h : w.Retains w') (hslot : w.promises[i]? = some .busy) :
    w'.promises[i]? = some .busy := h.kept trivial hslot

theorem Comes.retain {v : Value} {outcome : Settled} (h : w.Comes v outcome) (hretains : w.Retains w') :
    w'.Comes v outcome := by
  cases h with
  | promise hslot => exact .promise (hretains.kept trivial hslot)
  | plain hplain => exact .plain hplain

/-- While a promise is busy nothing comes to what it stands for. -/
theorem Comes.update {v : Value} {outcome : Settled} (h : w.Comes v outcome)
    (hbusy : w.promises[p.index]? = some .busy) : (w.update p slot s).Comes v outcome := by
  cases h with
  | @promise q _ hslot =>
      have hne : p.index ≠ q.index := by
        intro heq
        rw [← heq, hbusy] at hslot
        cases hslot
      exact .promise ((update_ne hne).trans hslot)
  | plain hplain => exact .plain hplain

/-- The slot of a promise may change that was neither settled nor busy in an earlier state. -/
theorem Retains.update (h : w.Retains w₁) (hp : ∀ slot, w.promises[p.index]? = some slot → ¬slot.Kept) :
    w.Retains (w₁.update p slot s) := by
  constructor
  · rw [update_size]
    exact h.size
  · intro i slot' hkept hslot
    have hne : p.index ≠ i := by
      rintro rfl
      exact hp slot' hslot hkept
    rw [update_ne hne]
    exact h.kept hkept hslot

theorem update_update {slot' : Slot} {s' : Store} : (w.update p slot s).update p slot' s' = w.update p slot' s' := by
  simp [World.update]

theorem retains_store : w.Retains { w with store := s } := ⟨Nat.le_refl _, fun _ => id⟩

/-- A new promise is made. -/
theorem retains_push {tracked : Array PromiseRef} : w.Retains ⟨s, w.promises.push slot, tracked⟩ := by
  refine ⟨by simp, ?_⟩
  intro i slot' _ hslot
  have hlt := (Array.getElem?_eq_some_iff.1 hslot).1
  show (w.promises.push slot)[i]? = _
  rw [Array.getElem?_push_lt hlt, ← Array.getElem?_eq_getElem hlt, hslot]

end World

/-- Polling a promise and making one change no promise that is settled, and what a poll finds a promise is settled
with. -/
structure Scheduler.Retaining (scheduler : Scheduler) : Prop where
  poll : ∀ {w w' : World} {p : PromiseRef} {outcome? : Option Settled}, (scheduler.poll p).Steps w outcome? w' →
    w.Retains w' ∧ ∀ outcome, outcome? = some outcome → w'.promises[p.index]? = some (.settled outcome)
  start : ∀ {w w' : World} {task : Task} {p : PromiseRef}, (scheduler.start task).Steps w p w' → w.Retains w'

/-! ## Gathering -/

namespace World

/-- What becomes of several values: all of them are fulfilled, or one is rejected. -/
inductive Collects (w : World) (items : List Value) : Collected → Prop where
  | values {vs : List Value} (hvs : List.Forall₂ (fun item v => w.Comes item (.fulfilled v)) items vs) :
      w.Collects items (.values vs)
  | rejected {item v : Value} (hmem : item ∈ items) (hv : w.Comes item (.rejected v)) : w.Collects items (.rejected v)
  | pending : w.Collects items .pending

/-- What a promise of several outcomes is settled with. -/
inductive Gathers (w : World) (items : List Value) : Settled → Prop where
  | fulfilled {vs : List Value} {a : ArrayRef} (ha : w.store.arrays[a.index]? = some vs.toArray)
      (hvs : List.Forall₂ (fun item v => w.Comes item (.fulfilled v)) items vs) : w.Gathers items (.fulfilled (.array a))
  | rejected {item v : Value} (hmem : item ∈ items) (hv : w.Comes item (.rejected v)) : w.Gathers items (.rejected v)

/-- The outcomes that are known of values that are polled in turn. -/
structure Knows (w : World) (items : List Value) (outcomes : List (Option Settled)) (queue : List (Value × Nat)) :
    Prop where
  length : outcomes.length = items.length
  known : ∀ {k : Nat} {outcome : Settled}, outcomes[k]? = some (some outcome) →
    ∃ item, items[k]? = some item ∧ w.Comes item outcome
  asked : ∀ e ∈ queue, items[e.2]? = some e.1

/-- The state of a promise of several outcomes that is not settled. -/
inductive Gathering (w : World) (items : List Value) : Slot → Prop where
  | together : w.Gathering items (.all items)
  | inTurn {c : Crowd} (hknows : w.Knows items c.outcomes c.queue) : w.Gathering items (.crowd c)

variable {w w' : World} {items : List Value}

theorem Knows.retain {outcomes : List (Option Settled)} {queue : List (Value × Nat)} (h : w.Knows items outcomes queue)
    (hretains : w.Retains w') : w'.Knows items outcomes queue := by
  refine ⟨h.length, ?_, h.asked⟩
  intro k outcome hk
  obtain ⟨item, hitem, hcomes⟩ := h.known hk
  exact ⟨item, hitem, hcomes.retain hretains⟩

theorem Knows.update {outcomes : List (Option Settled)} {queue : List (Value × Nat)} {p : PromiseRef} {slot : Slot}
    {s : Store} (h : w.Knows items outcomes queue) (hbusy : w.promises[p.index]? = some .busy) :
    (w.update p slot s).Knows items outcomes queue := by
  refine ⟨h.length, ?_, h.asked⟩
  intro k outcome hk
  obtain ⟨item, hitem, hcomes⟩ := h.known hk
  exact ⟨item, hitem, hcomes.update hbusy⟩

theorem gathering_ofValues (items : List Value) : w.Gathering items (.ofValues items) := by
  unfold Slot.ofValues
  split
  · exact .together
  · refine .inTurn ⟨by simp [Crowd.ofValues], ?_, ?_⟩
    · intro k outcome hk
      have hmem := List.mem_of_getElem? hk
      simp [Crowd.ofValues] at hmem
    · intro e he
      exact List.mem_zipIdx_iff_getElem?.1 he

/-- The verdict on outcomes is right if they are. -/
theorem Knows.verdict {outcomes : List (Option Settled)} {queue : List (Value × Nat)}
    (h : w.Knows items outcomes queue) : w.Collects items (Crowd.verdict outcomes) := by
  obtain ⟨hlength, hknown, -⟩ := h
  -- Along the outcomes: the first one that is unknown or a rejection decides.
  induction outcomes generalizing items with
  | nil =>
      obtain rfl : items = [] := List.eq_nil_of_length_eq_zero hlength.symm
      exact .values .nil
  | cons outcome? outcomes ih =>
      obtain ⟨item, items, rfl⟩ : ∃ item items', items = item :: items' :=
        List.exists_cons_of_length_eq_add_one hlength.symm
      have hrest := ih (Nat.succ.inj hlength) fun {k} outcome hk => hknown (k := k + 1) hk
      match outcome? with
      | none => exact .pending
      | some (.rejected v) =>
          obtain ⟨item', hitem, hcomes⟩ := hknown (k := 0) rfl
          exact .rejected (List.mem_of_getElem? hitem) hcomes
      | some (.fulfilled v) =>
          obtain ⟨item', hitem, hcomes⟩ := hknown (k := 0) rfl
          cases hitem
          rw [Crowd.verdict]
          revert hrest
          cases Crowd.verdict outcomes with
          | values vs =>
              rintro ⟨hvs⟩
              exact .values (.cons hcomes hvs)
          | rejected v' =>
              intro hrest
              cases hrest with
              | rejected hmem hv => exact .rejected (List.mem_cons_of_mem _ hmem) hv
          | pending => exact fun _ => .pending

end World

/-! ## Polls -/

namespace Scheduler.Retaining

open World

variable {scheduler : Scheduler} {w w' : World} {p : PromiseRef} {items : List Value}

theorem advance {α : Type} {x : Suspension α} {progress : Progress α} (hs : scheduler.Retaining)
    (h : (scheduler.advance x).Steps w progress w') : w.Retains w' := by
  induction x generalizing w with
  | done result s =>
      rcases result with (r | a) | a
      · cases h
        exact retains_store
      · cases h
      · cases h
        exact retains_store
  | await p s resume ih =>
      unfold Scheduler.advance at h
      obtain ⟨_, _, ⟨⟩, h⟩ := h.of_bind
      obtain ⟨outcome?, w₁, hpoll, h⟩ := h.of_bind
      have hpolled := (retains_store (s := s)).trans (hs.poll hpoll).1
      cases outcome? with
      | none =>
          cases h
          exact hpolled
      | some outcome => exact hpolled.trans (ih outcome w₁.store h)
  | spawn task s resume ih =>
      unfold Scheduler.advance at h
      obtain ⟨_, _, ⟨⟩, h⟩ := h.of_bind
      obtain ⟨p, w₁, hstart, h⟩ := h.of_bind
      have hstarted := (retains_store (s := s)).trans (hs.start hstart)
      exact hstarted.trans (ih p w₁.store h)

theorem pollValue {v : Value} {outcome? : Option Settled} (hs : scheduler.Retaining)
    (h : (scheduler.pollValue v).Steps w outcome? w') :
    w.Retains w' ∧ ∀ outcome, outcome? = some outcome → w'.Comes v outcome := by
  cases v with
  | promise p =>
      obtain ⟨hretains, hsettled⟩ := hs.poll h
      exact ⟨hretains, fun outcome ho => .promise (hsettled outcome ho)⟩
  | _ =>
      cases h
      refine ⟨.refl _, ?_⟩
      rintro outcome ⟨⟩
      exact .plain nofun

/-- Values that are polled in order. -/
theorem collect {collected : Collected} (hs : scheduler.Retaining)
    (h : (scheduler.collect items).Steps w collected w') : w.Retains w' ∧ w'.Collects items collected := by
  induction items generalizing w w' collected with
  | nil =>
      cases h
      exact ⟨.refl _, .values .nil⟩
  | cons item items ih =>
      -- The first value is fulfilled, and the others are polled.
      have hfulfilled : ∀ {w₁ w' : World} {v : Value} {collected : Collected} {next : Collected → Sched Collected},
          w₁.Comes item (.fulfilled v) → (scheduler.collect items >>= next).Steps w₁ collected w' →
          (∀ vs, next (.values vs) = pure (.values (v :: vs))) → (∀ v, next (.rejected v) = pure (.rejected v)) →
          next .pending = pure .pending → w₁.Retains w' ∧ w'.Collects (item :: items) collected := by
        intro w₁ w' v collected next hcomes h hvalues hrejected hpending
        obtain ⟨rest, w₂, hcollect, h⟩ := h.of_bind
        obtain ⟨hretains, hrest⟩ := ih hcollect
        cases hrest with
        | values hvs =>
            rw [hvalues] at h
            cases h
            exact ⟨hretains, .values (.cons (hcomes.retain hretains) hvs)⟩
        | rejected hmem hv =>
            rw [hrejected] at h
            cases h
            exact ⟨hretains, .rejected (List.mem_cons_of_mem _ hmem) hv⟩
        | pending =>
            rw [hpending] at h
            cases h
            exact ⟨hretains, .pending⟩
      cases item with
      | promise p =>
          obtain ⟨outcome?, w₁, hpoll, h⟩ := h.of_bind
          obtain ⟨hpolled, hsettled⟩ := hs.poll hpoll
          cases outcome? with
          | some outcome =>
              cases outcome with
              | rejected v =>
                  cases h
                  exact ⟨hpolled, .rejected List.mem_cons_self (.promise (hsettled _ rfl))⟩
              | fulfilled v =>
                  obtain ⟨hretains, hcollects⟩ :=
                    hfulfilled (.promise (hsettled _ rfl)) h (fun _ => rfl) (fun _ => rfl) rfl
                  exact ⟨hpolled.trans hretains, hcollects⟩
          | none =>
              obtain ⟨rest, w₂, hcollect, h⟩ := h.of_bind
              obtain ⟨hretains, hrest⟩ := ih hcollect
              cases hrest with
              | values hvs =>
                  cases h
                  exact ⟨hpolled.trans hretains, .pending⟩
              | rejected hmem hv =>
                  cases h
                  exact ⟨hpolled.trans hretains, .rejected (List.mem_cons_of_mem _ hmem) hv⟩
              | pending =>
                  cases h
                  exact ⟨hpolled.trans hretains, .pending⟩
      | _ => exact hfulfilled (.plain fun _ h => Value.noConfusion h) h (fun _ => rfl) (fun _ => rfl) rfl

/-- Values that are polled in turn. -/
theorem serve {patience : Nat} {outcomes : List (Option Settled)} {queue : List (Value × Nat)}
    {collected : Collected} {c : Crowd} (hs : scheduler.Retaining)
    (h : (scheduler.serve patience outcomes queue).Steps w (collected, c) w') :
    w.Retains w' ∧ ∀ items, w.Knows items outcomes queue →
      w'.Knows items c.outcomes c.queue ∧ collected = Crowd.verdict c.outcomes := by
  fun_induction Scheduler.serve scheduler patience outcomes queue generalizing w with
  | case1 outcomes patience v k queue _ ih₁ ih₂ =>
      obtain ⟨outcome?, w₁, hpoll, h⟩ := h.of_bind
      obtain ⟨hpolled, hcomes⟩ := hs.pollValue hpoll
      cases outcome? with
      | none =>
          obtain ⟨hretains, hserved⟩ := ih₂ h
          refine ⟨hpolled.trans hretains, fun items hknows => hserved items ?_⟩
          -- The value goes to the end of the queue.
          obtain ⟨hlength, hknown, hasked⟩ := hknows.retain hpolled
          refine ⟨hlength, hknown, ?_⟩
          intro e he
          rw [List.mem_append, List.mem_singleton] at he
          exact hasked e (List.mem_cons.2 he.symm)
      | some outcome =>
          obtain ⟨hretains, hserved⟩ := ih₁ outcome h
          refine ⟨hpolled.trans hretains, fun items hknows => hserved items ?_⟩
          obtain ⟨hlength, hknown, hasked⟩ := hknows.retain hpolled
          refine ⟨by rw [List.length_set, hlength], ?_, fun e he => hasked e (List.mem_cons_of_mem _ he)⟩
          intro i outcome' hi
          by_cases hik : k = i
          · subst hik
            have hitem := hasked (v, k) List.mem_cons_self
            have hlt : k < outcomes.length := by
              rw [hlength]
              exact (List.getElem?_eq_some_iff.1 hitem).1
            rw [List.getElem?_set_self hlt] at hi
            cases hi
            exact ⟨v, hitem, hcomes _ rfl⟩
          · rw [List.getElem?_set_ne hik] at hi
            exact hknown hi
  | case2 =>
      cases h
      exact ⟨.refl _, fun items hknows => ⟨hknows, rfl⟩⟩

end Scheduler.Retaining

/-! ## Several outcomes -/

section

open World

variable {scheduler : Scheduler} {w w₁ w' : World} {p : PromiseRef} {items : List Value} {outcome? : Option Settled}

/-- A poll of a promise that polls its values in order. -/
theorem pollWith_all_iff (hslot : w.promises[p.index]? = some (.all items)) :
    (scheduler.pollWith p).Steps w outcome? w' ↔ ∃ collected w₁,
      (scheduler.collect items).Steps (w.update p .busy w.store) collected w₁ ∧
        (settleCollected p (.all items) collected).Steps w₁ outcome? w' := by
  constructor
  · intro h
    obtain ⟨slot, w₀, hread, h⟩ := h.of_bind
    cases hread
    rw [hslot] at h
    obtain ⟨_, _, ⟨⟩, h⟩ := h.of_bind
    obtain ⟨collected, w₁, hcollect, h⟩ := h.of_bind
    exact ⟨collected, w₁, hcollect, h⟩
  · rintro ⟨collected, w₁, hcollect, hsettle⟩
    exact pollWith_all hslot hcollect hsettle

/-- A poll of a promise that polls its values in turn. -/
theorem pollWith_crowd_iff {c : Crowd} (hslot : w.promises[p.index]? = some (.crowd c)) :
    (scheduler.pollWith p).Steps w outcome? w' ↔ ∃ collected c' w₁,
      (scheduler.serve (Crowd.patience c.queue) c.outcomes c.queue).Steps (w.update p .busy w.store) (collected, c') w₁ ∧
        (settleCollected p (.crowd c') collected).Steps w₁ outcome? w' := by
  constructor
  · intro h
    obtain ⟨slot, w₀, hread, h⟩ := h.of_bind
    cases hread
    rw [hslot] at h
    obtain ⟨_, _, ⟨⟩, h⟩ := h.of_bind
    obtain ⟨⟨collected, c'⟩, w₁, hserve, h⟩ := h.of_bind
    refine ⟨collected, c', w₁, hserve, ?_⟩
    cases collected <;> exact h
  · rintro ⟨collected, c', w₁, hserve, hsettle⟩
    exact Crowd.pollWith_crowd hslot hserve hsettle

/-- What is collected changes the slot of the promise only. -/
theorem settleCollected_form {pending : Slot} {collected : Collected}
    (h : (settleCollected p pending collected).Steps w₁ outcome? w') :
    ∃ slot s, w' = w₁.update p slot s ∧ slot = outcome?.elim pending .settled := by
  cases collected <;> cases h <;> exact ⟨_, _, rfl, rfl⟩

/-- What is collected decides what the promise is settled with. -/
theorem settleCollected_gathers {pending : Slot} {collected : Collected} {outcome : Settled}
    (hbusy : w₁.promises[p.index]? = some .busy) (hcollects : w₁.Collects items collected)
    (h : (settleCollected p pending collected).Steps w₁ (some outcome) w') : w'.Gathers items outcome := by
  cases hcollects with
  | values hvs =>
      cases h
      refine .fulfilled ?_ (hvs.imp fun _ _ hcomes => hcomes.update hbusy)
      exact Array.getElem?_push_size
  | rejected hmem hv =>
      cases h
      exact .rejected hmem (hv.update hbusy)
  | pending => cases h

/-- Polling a promise of several outcomes, given how to poll others: it is settled with what they come to, or it goes on
to wait for them. -/
theorem pollWith_gathering {slot : Slot} (hs : scheduler.Retaining) (hslot : w.promises[p.index]? = some slot)
    (hgathering : w.Gathering items slot) (h : (scheduler.pollWith p).Steps w outcome? w') :
    (∀ outcome, outcome? = some outcome → w'.Gathers items outcome) ∧
      (outcome? = none → ∃ slot', w'.promises[p.index]? = some slot' ∧ w'.Gathering items slot') := by
  have hbound : p.index < w.promises.size := (Array.getElem?_eq_some_iff.1 hslot).1
  -- The promise itself stays busy while its values are polled, so what they come to does not depend on it.
  have hbusy : (w.update p .busy w.store).promises[p.index]? = some .busy := update_self hbound
  cases hgathering with
  | together =>
      obtain ⟨collected, w₁, hcollect, hsettle⟩ := (pollWith_all_iff hslot).1 h
      obtain ⟨hretains, hcollects⟩ := hs.collect hcollect
      have hbusy₁ := hretains.busy hbusy
      constructor
      · intro outcome ho
        subst ho
        exact settleCollected_gathers hbusy₁ hcollects hsettle
      · intro ho
        subst ho
        obtain ⟨slot, s, rfl, rfl⟩ := settleCollected_form hsettle
        exact ⟨.all items, update_self (Array.getElem?_eq_some_iff.1 hbusy₁).1, .together⟩
  | @inTurn c hknows =>
      obtain ⟨collected, c', w₁, hserve, hsettle⟩ := (pollWith_crowd_iff hslot).1 h
      obtain ⟨hretains, hserved⟩ := hs.serve hserve
      have hbusy₁ := hretains.busy hbusy
      have hopen : w.Retains (w.update p .busy w.store) := by
        refine (Retains.refl w).update fun slot hp hkept => ?_
        rw [hslot] at hp
        cases hp
        exact hkept
      obtain ⟨hknows₁, rfl⟩ := hserved items (hknows.retain hopen)
      constructor
      · intro outcome ho
        subst ho
        exact settleCollected_gathers hbusy₁ hknows₁.verdict hsettle
      · intro ho
        subst ho
        obtain ⟨slot, s, rfl, rfl⟩ := settleCollected_form hsettle
        exact ⟨.crowd c', update_self (Array.getElem?_eq_some_iff.1 hbusy₁).1, .inTurn (hknows₁.update hbusy₁)⟩

/-! ## All promises -/

theorem notePromise_form {progress : Progress Value} (h : (notePromise p progress).Steps w₁ outcome? w') :
    ∃ slot s, w' = w₁.update p slot s ∧ ∀ outcome, outcome? = some outcome → slot = .settled outcome := by
  cases progress with
  | done result =>
      have hstep : (notePromise p (.done result)).Steps w₁ _ _ := notePromise_done rfl
      obtain ⟨rfl, rfl⟩ := hstep.unique h
      exact ⟨_, _, rfl, by rintro _ ⟨⟩; rfl⟩
  | waiting q resume =>
      obtain ⟨rfl, rfl⟩ := notePromise_waiting.unique h
      exact ⟨_, _, rfl, nofun⟩

/-- Polling a promise, given how to poll others. -/
theorem Scheduler.Retaining.pollWith (hs : scheduler.Retaining) (h : (scheduler.pollWith p).Steps w outcome? w') :
    w.Retains w' ∧ ∀ outcome, outcome? = some outcome → w'.promises[p.index]? = some (.settled outcome) := by
  cases hslot : w.promises[p.index]? with
  | none =>
      obtain ⟨_, _, hread, h⟩ := h.of_bind
      cases hread
      rw [hslot] at h
      cases h
      exact ⟨.refl _, nofun⟩
  | some slot =>
      have hbound : p.index < w.promises.size := (Array.getElem?_eq_some_iff.1 hslot).1
      -- A promise that is neither settled nor busy is busy for a while, and its slot changes then.
      have hchanged : ∀ {w₁ : World} {slot' : Slot} {s : Store}, ¬slot.Kept →
          (w.update p .busy w.store).Retains w₁ → w' = w₁.update p slot' s →
          (∀ outcome, outcome? = some outcome → slot' = .settled outcome) →
          w.Retains w' ∧ ∀ outcome, outcome? = some outcome → w'.promises[p.index]? = some (.settled outcome) := by
        rintro w₁ slot' s hopen hretains rfl hsettled
        have hp : ∀ slot, w.promises[p.index]? = some slot → ¬slot.Kept := by
          intro slot₁ hslot₁
          rw [hslot] at hslot₁
          cases hslot₁
          exact hopen
        refine ⟨(((Retains.refl w).update hp).trans hretains).update hp, ?_⟩
        intro outcome ho
        rw [hsettled outcome ho]
        exact update_self (Nat.lt_of_lt_of_le (by rwa [update_size]) hretains.size)
      cases slot with
      | settled outcome =>
          obtain ⟨rfl, rfl⟩ := (pollWith_settled hslot).unique h
          exact ⟨.refl _, by rintro _ ⟨⟩; exact hslot⟩
      | busy =>
          obtain ⟨_, _, hread, h⟩ := h.of_bind
          cases hread
          rw [hslot] at h
          cases h
          exact ⟨.refl _, nofun⟩
      | host call started response =>
          obtain ⟨result, delay⟩ := response
          cases delay with
          | zero =>
              have hstep : (scheduler.pollWith p).Steps w _ _ := pollWith_host_now hslot rfl
              obtain ⟨rfl, rfl⟩ := hstep.unique h
              exact hchanged id (.refl _) World.update_update.symm (by rintro _ ⟨⟩; rfl)
          | succ delay =>
              have hstep : (scheduler.pollWith p).Steps w _ _ := pollWith_host_later hslot
              obtain ⟨rfl, rfl⟩ := hstep.unique h
              exact hchanged id (.refl _) World.update_update.symm nofun
      | waiting q resume =>
          obtain ⟨_, _, hread, h⟩ := h.of_bind
          cases hread
          rw [hslot] at h
          obtain ⟨_, _, ⟨⟩, h⟩ := h.of_bind
          obtain ⟨inner?, w₁, hinner, h⟩ := h.of_bind
          have hpolled := (hs.poll hinner).1
          cases inner? with
          | none =>
              cases h
              exact hchanged id hpolled rfl nofun
          | some inner =>
              obtain ⟨_, _, ⟨⟩, h⟩ := h.of_bind
              obtain ⟨progress, w₂, hadvance, hnote⟩ := h.of_bind
              obtain ⟨slot', s, hw', hsettled⟩ := notePromise_form hnote
              exact hchanged id (hpolled.trans (hs.advance hadvance)) hw' hsettled
      | all items =>
          obtain ⟨collected, w₁, hcollect, hsettle⟩ := (pollWith_all_iff hslot).1 h
          obtain ⟨slot', s, hw', hslot'⟩ := settleCollected_form hsettle
          refine hchanged id (hs.collect hcollect).1 hw' ?_
          rintro outcome rfl
          exact hslot'
      | crowd c =>
          obtain ⟨collected, c', w₁, hserve, hsettle⟩ := (pollWith_crowd_iff hslot).1 h
          obtain ⟨slot', s, hw', hslot'⟩ := settleCollected_form hsettle
          refine hchanged id (hs.serve hserve).1 hw' ?_
          rintro outcome rfl
          exact hslot'

/-- Making a promise, given how to poll promises and to make others. -/
theorem Scheduler.Retaining.startWith {run : Job → Comp Value} {task : Task} (hs : scheduler.Retaining)
    (h : (scheduler.startWith run task).Steps w p w') : w.Retains w' := by
  cases task with
  | settled outcome =>
      cases h
      exact retains_push
  | all items =>
      cases h
      exact retains_push
  | host id response =>
      cases h
      exact retains_push
  | job job =>
      obtain ⟨_, _, ⟨⟩, h⟩ := h.of_bind
      obtain ⟨_, _, ⟨⟩, h⟩ := h.of_bind
      obtain ⟨progress, w₁, hadvance, h⟩ := h.of_bind
      obtain ⟨_, w₂, hnote, h⟩ := h.of_bind
      cases h
      obtain ⟨slot, s, rfl, -⟩ := notePromise_form hnote
      have hnew : ∀ slot, w.promises[w.promises.size]? = some slot → ¬slot.Kept := by
        intro slot hslot
        rw [Array.getElem?_size] at hslot
        cases hslot
      have hretains : w.Retains (w₁.update ⟨w.promises.size⟩ slot s) :=
        (retains_push.trans (hs.advance hadvance)).update hnew
      exact ⟨hretains.size, hretains.kept⟩

end

/-- No scheduler changes what is settled. -/
theorem scheduler_retaining (run : Job → Comp Value) (levels : Nat) : (scheduler run levels).Retaining := by
  induction levels with
  | zero => exact ⟨by rintro _ _ _ _ ⟨⟩, by rintro _ _ _ _ ⟨⟩⟩
  | succ levels ih => exact ⟨ih.pollWith, ih.startWith⟩

/-- A promise of several outcomes that is polled until it is settled. -/
theorem complete_gathers {run : Job → Comp Value} {levels rounds : Nat} {w w' : World} {p : PromiseRef} {slot : Slot}
    {items : List Value} {outcome : Settled} (hslot : w.promises[p.index]? = some slot)
    (hgathering : w.Gathering items slot) (h : ((scheduler run levels).complete rounds p).Steps w outcome w') :
    w'.Gathers items outcome := by
  cases levels with
  | zero =>
      cases rounds with
      | zero => cases h
      | succ rounds =>
          obtain ⟨_, _, ⟨⟩, _⟩ := h.of_bind
  | succ levels =>
      induction rounds generalizing w slot with
      | zero => cases h
      | succ rounds ih =>
          obtain ⟨outcome?, w₁, hpoll, h⟩ := h.of_bind
          obtain ⟨hsettled, hopen⟩ := pollWith_gathering (scheduler_retaining run levels) hslot hgathering hpoll
          cases outcome? with
          | none =>
              obtain ⟨slot', hslot', hgathering'⟩ := hopen rfl
              exact ih hslot' hgathering' h
          | some outcome' =>
              cases h
              exact hsettled _ rfl

end FieldScript
