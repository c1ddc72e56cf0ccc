import FieldScript.Proofs.Eval.Accounts
import FieldScript.Proofs.Eval.Bodies

/-!
# Runs settle every call

Whatever a run does, the journal and the promises stay in agreement, and a run ends only when every promise
that stands for an answer is settled. So every call of an asynchronous function is started once and done once.

## Strategy

* `World.Leads`: a later state of a run, in agreement, in which no earlier promise has come to stand for an answer.
* `Scheduler.Lawful`: polling a promise and making one lead to such states. This passes from a scheduler to the one
  that goes down one level more (`scheduler_lawful`).
* `complete_leads`, `finish_leads`, `drain_leads`: what a run does with the scheduler.
-/

namespace FieldScript

namespace Sched

variable {α β : Type} {x : Sched α} {f : α → Sched β} {b : β} {w w' : World}

/-- A step after another was made from where that one led. -/
theorem Steps.of_bind (h : (x >>= f).Steps w b w') : ∃ a w₁, x.Steps w a w₁ ∧ (f a).Steps w₁ b w' := by
  unfold Steps at h
  rw [StateT.run_bind] at h
  obtain ⟨⟨a, w₁⟩, hx, hf⟩ := Except.exists_of_bind_eq_ok h
  exact ⟨a, w₁, hx, hf⟩

theorem Steps.unique {a a' : α} {w₁ w₂ : World} (h : x.Steps w a w₁) (h' : x.Steps w a' w₂) : a' = a ∧ w₂ = w₁ := by
  cases (Eq.trans (Eq.symm h) h' : Except.ok (a, w₁) = Except.ok (a', w₂))
  exact ⟨rfl, rfl⟩

end Sched

/-! ## States of a run -/

/-- The journal and the promises of a run agree. -/
def World.Fair (api : Api) (base : Journal) (left : List PromiseRef) (w : World) : Prop :=
  ∃ news, Accounts api base left news w.store.journal w.promises w.tracked

/-- A state of a run behind another. -/
structure World.Leads (api : Api) (base : Journal) (left : List PromiseRef) (w w' : World) : Prop where
  fair : w'.Fair api base left
  size : w.promises.size ≤ w'.promises.size
  awaited : ∀ {i id : Nat} {started : Bool}, i < w.promises.size → Awaited w'.promises i id started →
    ∃ id' started', Awaited w.promises i id' started'

variable {api : Api} {base : Journal} {left : List PromiseRef}

namespace World

variable {w w₁ w₂ : World} {p : PromiseRef} {slot : Slot}

theorem Leads.refl (h : w.Fair api base left) : w.Leads api base left w :=
  ⟨h, Nat.le_refl _, fun _ ha => ⟨_, _, ha⟩⟩

theorem Leads.trans (h : w.Leads api base left w₁) (h' : w₁.Leads api base left w₂) : w.Leads api base left w₂ := by
  refine ⟨h'.fair, Nat.le_trans h.size h'.size, fun hi ha => ?_⟩
  obtain ⟨id', started', ha'⟩ := h'.awaited (Nat.lt_of_lt_of_le hi h.size) ha
  exact h.awaited hi ha'

/-- A promise that stands for no answer. -/
def Plain (w : World) (p : PromiseRef) : Prop := ∀ id started, ¬Awaited w.promises p.index id started

theorem plain_of_slot (hslot : w.promises[p.index]? = some slot) (h : ∀ id started response, slot ≠ .host id started response) :
    w.Plain p := by
  rintro id started ⟨response, ha⟩
  cases hslot.symm.trans ha
  exact h id started response rfl

theorem Leads.plain (h : w.Leads api base left w₁) (hbound : p.index < w.promises.size) (hp : w.Plain p) :
    w₁.Plain p := by
  intro id started ha
  obtain ⟨id', started', ha'⟩ := h.awaited hbound ha
  exact hp id' started' ha'

/-! ## Single changes -/

section

variable (hw : w.Fair api base left)

include hw

theorem leads_store {s : Store} (hs : Journal.Quiet api w.store.journal s.journal) :
    w.Leads api base left { w with store := s } := by
  obtain ⟨news, hw⟩ := hw
  exact ⟨hw.quiet hs, Nat.le_refl _, fun _ ha => ⟨_, _, ha⟩⟩

theorem leads_set (slot : Slot) (hp : w.Plain p) (hslot : slot.Plain api) {s : Store} (hs : s.journal = w.store.journal) :
    w.Leads api base left (w.update p slot s) := by
  obtain ⟨news, hw⟩ := hw
  refine ⟨⟨news, ?_⟩, Nat.le_of_eq update_size.symm, fun _ ha => ?_⟩
  · show Accounts api base left news s.journal _ _
    rw [hs]
    exact hw.set hp hslot
  · rcases Awaited.of_set ha with ⟨ha, _⟩ | ⟨_, response, rfl⟩
    · exact ⟨_, _, ha⟩
    · exact hslot.elim

end

end World

/-! ## Computations -/

/-- How far a computation got, if it goes on in an orderly way. -/
def Progress.Orderly {α : Type} (api : Api) : Progress α → Prop
  | .done _ => True
  | .waiting _ resume => ∀ outcome s, (resume outcome s).Orderly api s.journal

/-- Polling a promise and making one keep the journal and the promises in agreement, and a promise that turns out to
be settled stands for no answer. -/
structure Scheduler.Lawful (api : Api) (base : Journal) (left : List PromiseRef) (scheduler : Scheduler) : Prop where
  poll : ∀ {w w' : World} {p : PromiseRef} {outcome? : Option Settled}, w.Fair api base left →
    (scheduler.poll p).Steps w outcome? w' → w.Leads api base left w' ∧ (outcome?.isSome → w'.Plain p)
  start : ∀ {w w' : World} {s : Store} {task : Task} {p : PromiseRef}, w.Fair api base left →
    Journal.Asks api w.store.journal s.journal task → (scheduler.start task).Steps { w with store := s } p w' →
      w.Leads api base left w'

section

variable {scheduler : Scheduler} {w w' : World}

theorem Scheduler.Lawful.advance {α : Type} {x : Suspension α} {progress : Progress α}
    (hs : scheduler.Lawful api base left) (hw : w.Fair api base left) (hx : x.Orderly api w.store.journal)
    (h : (scheduler.advance x).Steps w progress w') : w.Leads api base left w' ∧ progress.Orderly api := by
  induction x generalizing w with
  | done result s =>
      rcases result with (r | a) | a
      · cases h
        exact ⟨World.leads_store hw hx, trivial⟩
      · cases h
      · cases h
        exact ⟨World.leads_store hw hx, trivial⟩
  | await p s resume ih =>
      have hstore := World.leads_store hw hx.1
      unfold Scheduler.advance at h
      obtain ⟨_, _, ⟨⟩, h⟩ := h.of_bind
      obtain ⟨outcome?, w₁, hpoll, hrest⟩ := h.of_bind
      have hpolled := hstore.trans (hs.poll hstore.fair hpoll).1
      cases outcome? with
      | none =>
          cases hrest
          exact ⟨hpolled, hx.2⟩
      | some outcome =>
          obtain ⟨hleads, hprogress⟩ := ih outcome w₁.store hpolled.fair (hx.2 outcome w₁.store) hrest
          exact ⟨hpolled.trans hleads, hprogress⟩
  | spawn task s resume ih =>
      unfold Scheduler.advance at h
      obtain ⟨_, _, ⟨⟩, h⟩ := h.of_bind
      obtain ⟨p, w₁, hstart, hrest⟩ := h.of_bind
      have hstarted := hs.start hw hx.1 hstart
      obtain ⟨hleads, hprogress⟩ := ih p w₁.store hstarted.fair (hx.2 p w₁.store) hrest
      exact ⟨hstarted.trans hleads, hprogress⟩

theorem Settled.ofResult_local (result : Except Raised Value) : (Settled.ofResult result).Local [] := by
  cases result with
  | ok v => exact .pure _
  | error r => exact (Change.raisedValue_local r).bind fun _ => .pure _

theorem Settled.ofAnswer_local (result : Except Json Json) : (Settled.ofAnswer result).Local [] := by
  cases result with
  | ok j => exact (Value.ofJson_local j).bind fun _ => .pure _
  | error j => exact (Value.ofJson_local j).bind fun _ => .pure _

theorem notePromise_leads {p : PromiseRef} {progress : Progress Value} {outcome? : Option Settled}
    (hw : w.Fair api base left) (hp : w.Plain p) (hprogress : progress.Orderly api)
    (h : (notePromise p progress).Steps w outcome? w') : w.Leads api base left w' := by
  cases progress with
  | done result =>
      have hstep : (notePromise p (.done result)).Steps w _ _ := notePromise_done rfl
      obtain ⟨rfl, rfl⟩ := hstep.unique h
      exact World.leads_set hw (.settled _) hp trivial (Settled.ofResult_local result w.store).journal
  | waiting q resume =>
      obtain ⟨rfl, rfl⟩ := notePromise_waiting.unique h
      exact World.leads_set hw (.waiting q resume) hp hprogress rfl

/-! ## Polls -/

theorem Scheduler.Lawful.pollValue {v : Value} {outcome? : Option Settled} (hs : scheduler.Lawful api base left)
    (hw : w.Fair api base left) (h : (scheduler.pollValue v).Steps w outcome? w') : w.Leads api base left w' := by
  cases v with
  | promise p => exact (hs.poll hw h).1
  | _ =>
      cases h
      exact .refl hw

theorem Scheduler.Lawful.collect {items : List Value} {collected : Collected} (hs : scheduler.Lawful api base left)
    (hw : w.Fair api base left) (h : (scheduler.collect items).Steps w collected w') : w.Leads api base left w' := by
  induction items generalizing w collected with
  | nil =>
      cases h
      exact .refl hw
  | cons v rest ih =>
      -- what is made of the outcomes of the rest changes nothing
      have hrest : ∀ {w : World} {f : Collected → Sched Collected}, w.Fair api base left →
          (∀ c w₁, (f c).Steps w₁ collected w' → w' = w₁) → (scheduler.collect rest >>= f).Steps w collected w' →
          w.Leads api base left w' := by
        intro w f hw hf h
        obtain ⟨c, w₁, hcollect, hlast⟩ := h.of_bind
        cases hf c w₁ hlast
        exact ih hw hcollect
      cases v with
      | promise p =>
          obtain ⟨outcome?, w₁, hpoll, h⟩ := h.of_bind
          have hpolled := (hs.poll hw hpoll).1
          match outcome? with
          | none => exact hpolled.trans (hrest hpolled.fair (fun c _ hlast => by cases c <;> cases hlast <;> rfl) h)
          | some (.fulfilled v) =>
              exact hpolled.trans (hrest hpolled.fair (fun c _ hlast => by cases c <;> cases hlast <;> rfl) h)
          | some (.rejected v) =>
              cases h
              exact hpolled
      | _ => exact hrest hw (fun c _ hlast => by cases c <;> cases hlast <;> rfl) h

theorem Scheduler.Lawful.serve {patience : Nat} {outcomes : List (Option Settled)} {queue : List (Value × Nat)}
    {served : Collected × Crowd} (hs : scheduler.Lawful api base left)
    (hw : w.Fair api base left) (h : (scheduler.serve patience outcomes queue).Steps w served w') :
    w.Leads api base left w' := by
  fun_induction Scheduler.serve scheduler patience outcomes queue generalizing w with
  | case1 outcomes hverdict patience v i queue ih₁ ih₂ =>
      obtain ⟨outcome?, w₁, hpoll, hrest⟩ := h.of_bind
      have hpolled := hs.pollValue hw hpoll
      cases outcome? with
      | none => exact hpolled.trans (ih₂ hpolled.fair hrest)
      | some outcome => exact hpolled.trans (ih₁ outcome hpolled.fair hrest)
  | case2 =>
      cases h
      exact .refl hw

/-- A poll of an answer. -/
theorem pollWith_host {p : PromiseRef} {outcome? : Option Settled} {id : Nat} {started : Bool} {response : Response}
    (hw : w.Fair api base left) (hslot : w.promises[p.index]? = some (.host id started response))
    (h : (scheduler.pollWith p).Steps w outcome? w') :
    w.Leads api base left w' ∧ (outcome?.isSome → w'.Plain p) := by
  obtain ⟨news, haccounts⟩ := hw
  obtain ⟨result, delay⟩ := response
  have hawaited : Awaited w.promises p.index id started := ⟨_, hslot⟩
  have hbound : p.index < w.promises.size := (Array.getElem?_eq_some_iff.1 hslot).1
  -- the promise goes on to stand for the answer, or it is settled
  have hleads : ∀ (events : List Event) {slot : Slot} {s : Store}, (∀ e ∈ events, e = .start id ∨ e = .done id) →
      slot.Advances id started events → s.journal = events.foldl Journal.record w.store.journal →
      w.Leads api base left (w.update p slot s) := by
    intro events slot s hevents hadvances hjournal
    refine ⟨⟨news ++ events, ?_⟩, Nat.le_of_eq World.update_size.symm, fun _ ha => ?_⟩
    · show Accounts api base left _ s.journal _ _
      rw [hjournal]
      exact haccounts.poll hawaited hevents hadvances
    · rcases Awaited.of_set ha with ⟨ha, _⟩ | ⟨rfl, _⟩
      · exact ⟨_, _, ha⟩
      · exact ⟨_, _, hawaited⟩
  cases delay with
  | zero =>
      have hstep : (scheduler.pollWith p).Steps w _ _ := Scheduler.pollWith_host_now hslot rfl
      obtain ⟨rfl, rfl⟩ := hstep.unique h
      refine ⟨hleads (handOver id started) ?_ ?_ ?_, fun _ => ?_⟩
      · cases started <;> simp [handOver]
      · exact fun call => openCourse_handOver call id started
      · exact (Settled.ofAnswer_local result _).journal
      · exact World.plain_of_slot (World.update_self hbound) nofun
  | succ delay =>
      have hstep : (scheduler.pollWith p).Steps w _ _ := Scheduler.pollWith_host_later hslot
      obtain ⟨rfl, rfl⟩ := hstep.unique h
      refine ⟨hleads (if started then [] else [.start id]) ?_ ?_ rfl, nofun⟩
      · cases started <;> simp
      · exact ⟨rfl, fun call => by cases started <;> rfl⟩

/-- What a promise with the outcomes of several values comes to. -/
def settleCollected (p : PromiseRef) (pending : Slot) : Collected → Sched (Option Settled)
  | .values vs => do Sched.settle p (.fulfilled (← Sched.change (Change.newArray vs.toArray)))
  | .rejected v => Sched.settle p (.rejected v)
  | .pending => do
    Sched.setSlot p pending
    return none

theorem settleCollected_leads {p : PromiseRef} (pending : Slot) {collected : Collected} {outcome? : Option Settled}
    (hw : w.Fair api base left) (hp : w.Plain p) (hpending : pending.Plain api)
    (h : (settleCollected p pending collected).Steps w outcome? w') : w.Leads api base left w' := by
  cases collected with
  | values vs =>
      cases h
      exact World.leads_set hw (.settled _) hp trivial rfl
  | rejected v =>
      cases h
      exact World.leads_set hw (.settled _) hp trivial rfl
  | pending =>
      cases h
      exact World.leads_set hw pending hp hpending rfl

/-- Polling a promise, given a lawful way to poll others. -/
theorem Scheduler.Lawful.pollWith {p : PromiseRef} {outcome? : Option Settled} (hs : scheduler.Lawful api base left)
    (hw : w.Fair api base left) (h : (scheduler.pollWith p).Steps w outcome? w') :
    w.Leads api base left w' ∧ (outcome?.isSome → w'.Plain p) := by
  have hpoll := h
  obtain ⟨slot, w₀, hread, h⟩ := h.of_bind
  cases hread
  cases hslot : w.promises[p.index]? with
  | none =>
      rw [hslot] at h
      cases h
      exact ⟨.refl hw, nofun⟩
  | some slot =>
      rw [hslot] at h
      have hbound : p.index < w.promises.size := (Array.getElem?_eq_some_iff.1 hslot).1
      -- a promise that stands for no answer is busy for a while, and stands for none then
      have hbusy : w.Plain p → w.Leads api base left (w.update p .busy w.store) :=
        fun hp => World.leads_set hw .busy hp trivial rfl
      have hplain : w.Plain p → w.Leads api base left w' →
          w.Leads api base left w' ∧ (outcome?.isSome → w'.Plain p) :=
        fun hp hleads => ⟨hleads, fun _ => hleads.plain hbound hp⟩
      cases slot with
      | settled outcome =>
          cases h
          exact ⟨.refl hw, fun _ => World.plain_of_slot hslot nofun⟩
      | busy =>
          cases h
          exact ⟨.refl hw, nofun⟩
      | host id started response => exact pollWith_host hw hslot hpoll
      | waiting q resume =>
          have hp : w.Plain p := World.plain_of_slot hslot nofun
          have hresume : ∀ outcome s, (resume outcome s).Orderly api s.journal := hw.choose_spec.waiting hslot
          obtain ⟨_, _, ⟨⟩, h⟩ := h.of_bind
          obtain ⟨inner?, w₁, hinner, h⟩ := h.of_bind
          have hpolled := (hbusy hp).trans (hs.poll (hbusy hp).fair hinner).1
          refine hplain hp ?_
          cases inner? with
          | none =>
              cases h
              exact hpolled.trans (World.leads_set hpolled.fair (.waiting q resume) (hpolled.plain hbound hp) hresume rfl)
          | some inner =>
              obtain ⟨_, _, ⟨⟩, h⟩ := h.of_bind
              obtain ⟨progress, w₂, hadvance, hnote⟩ := h.of_bind
              obtain ⟨hleads, hprogress⟩ := hs.advance hpolled.fair (hresume inner w₁.store) hadvance
              have hadvanced := hpolled.trans hleads
              exact hadvanced.trans (notePromise_leads hadvanced.fair (hadvanced.plain hbound hp) hprogress hnote)
      | all items =>
          have hp : w.Plain p := World.plain_of_slot hslot nofun
          obtain ⟨_, _, ⟨⟩, h⟩ := h.of_bind
          obtain ⟨collected, w₁, hcollect, h⟩ := h.of_bind
          have hcollected := (hbusy hp).trans (hs.collect (hbusy hp).fair hcollect)
          have hsettle : (settleCollected p (.all items) collected).Steps w₁ outcome? w' := h
          exact hplain hp (hcollected.trans
            (settleCollected_leads (.all items) hcollected.fair (hcollected.plain hbound hp) trivial hsettle))
      | crowd c =>
          have hp : w.Plain p := World.plain_of_slot hslot nofun
          obtain ⟨_, _, ⟨⟩, h⟩ := h.of_bind
          obtain ⟨⟨collected, crowd⟩, w₁, hserve, h⟩ := h.of_bind
          have hserved := (hbusy hp).trans (hs.serve (hbusy hp).fair hserve)
          have hsettle : (settleCollected p (.crowd crowd) collected).Steps w₁ outcome? w' := by
            cases collected <;> exact h
          exact hplain hp (hserved.trans
            (settleCollected_leads (.crowd crowd) hserved.fair (hserved.plain hbound hp) trivial hsettle))

/-! ## New promises -/

/-- A promise that stands for no answer is made and remembered. -/
theorem addSlot_leads {slot : Slot} {s : Store} {tracked : Array PromiseRef} (hw : w.Fair api base left)
    (hs : Journal.Quiet api w.store.journal s.journal) (hslot : slot.Plain api)
    (htracked : tracked = w.tracked ∨ ∃ p, tracked = w.tracked.push p) :
    w.Leads api base left ⟨s, w.promises.push slot, tracked⟩ := by
  obtain ⟨news, haccounts⟩ := hw
  obtain ⟨news', haccounts'⟩ := haccounts.quiet hs
  refine ⟨⟨news', ?_⟩, ?_, fun hi ha => ?_⟩
  · rcases htracked with rfl | ⟨p, rfl⟩
    · exact haccounts'.push hslot
    · exact (haccounts'.push hslot).track p
  · simp
  · rcases Awaited.of_push ha with ha | ⟨rfl, _⟩
    · exact ⟨_, _, ha⟩
    · exact absurd hi (Nat.lt_irrefl _)

/-- Making a promise, given a lawful way to poll promises and to make others. -/
theorem Scheduler.Lawful.startWith {run : Job → Comp Value} {s : Store} {task : Task} {p : PromiseRef}
    (hs : scheduler.Lawful api base left) (hrun : ∀ job, (run job).Orderly api) (hw : w.Fair api base left)
    (hasks : Journal.Asks api w.store.journal s.journal task)
    (h : (scheduler.startWith run task).Steps { w with store := s } p w') : w.Leads api base left w' := by
  cases task with
  | settled outcome =>
      cases h
      exact addSlot_leads hw hasks trivial (.inr ⟨_, rfl⟩)
  | all items =>
      cases h
      refine addSlot_leads hw hasks ?_ (.inr ⟨_, rfl⟩)
      split <;> trivial
  | host id response =>
      obtain ⟨news, haccounts⟩ := hw
      obtain ⟨j₁, name, f, args, hquiet, hname, hasync, rfl, hjournal⟩ := hasks
      obtain ⟨news', haccounts'⟩ := haccounts.quiet hquiet
      cases h
      have hcalled := haccounts'.callLater args response hname hasync
      rw [← hjournal] at hcalled
      refine ⟨⟨_, hcalled⟩, ?_, fun hi ha => ?_⟩
      · simp
      · rcases Awaited.of_push ha with ha | ⟨rfl, _⟩
        · exact ⟨_, _, ha⟩
        · exact absurd hi (Nat.lt_irrefl _)
  | job job =>
      obtain ⟨_, _, ⟨⟩, h⟩ := h.of_bind
      obtain ⟨_, _, ⟨⟩, h⟩ := h.of_bind
      obtain ⟨progress, w₁, hadvance, h⟩ := h.of_bind
      obtain ⟨_, w₂, hnote, h⟩ := h.of_bind
      cases h
      have hbusy : w.Leads api base left ⟨s, w.promises.push .busy, w.tracked⟩ :=
        addSlot_leads hw hasks trivial (.inl rfl)
      have hplain : (⟨s, w.promises.push .busy, w.tracked⟩ : World).Plain ⟨w.promises.size⟩ :=
        World.plain_of_slot Array.getElem?_push_size nofun
      obtain ⟨hadvanced, hprogress⟩ := hs.advance hbusy.fair (hrun job s) hadvance
      have hnoted := hadvanced.trans (notePromise_leads hadvanced.fair
        (hadvanced.plain (by simp) hplain) hprogress hnote)
      have hleads := hbusy.trans hnoted
      obtain ⟨news, haccounts⟩ := hleads.fair
      exact ⟨⟨news, haccounts.track _⟩, hleads.size, hleads.awaited⟩

end

/-- Every scheduler is lawful if what runs behind promises is orderly. -/
theorem scheduler_lawful {run : Job → Comp Value} (hrun : ∀ job, (run job).Orderly api) (levels : Nat) :
    (scheduler run levels).Lawful api base left := by
  induction levels with
  | zero => exact ⟨by rintro _ _ _ _ _ ⟨⟩, by rintro _ _ _ _ _ _ _ ⟨⟩⟩
  | succ levels ih => exact ⟨ih.pollWith, ih.startWith hrun⟩

/-! ## Whole runs -/

section

variable {scheduler : Scheduler} {w w' : World} {rounds : Nat}

/-- A promise that was asked for until it was settled. -/
theorem Scheduler.Lawful.complete {p : PromiseRef} {outcome : Settled} (hs : scheduler.Lawful api base left)
    (hw : w.Fair api base left) (h : (scheduler.complete rounds p).Steps w outcome w') :
    w.Leads api base left w' ∧ w'.Plain p := by
  induction rounds generalizing w with
  | zero => cases h
  | succ rounds ih =>
      obtain ⟨outcome?, w₁, hpoll, h⟩ := h.of_bind
      obtain ⟨hpolled, hplain⟩ := hs.poll hw hpoll
      cases outcome? with
      | none =>
          obtain ⟨hleads, hplain⟩ := ih hpolled.fair h
          exact ⟨hpolled.trans hleads, hplain⟩
      | some outcome =>
          cases h
          exact ⟨hpolled, hplain rfl⟩

/-- A computation that was let go on until it was done. -/
theorem Scheduler.Lawful.finish {α : Type} {x : Suspension α} {result : Except Raised α}
    (hs : scheduler.Lawful api base left) (hw : w.Fair api base left) (hx : x.Orderly api w.store.journal)
    (h : (scheduler.finish rounds x).Steps w result w') : w.Leads api base left w' := by
  induction x generalizing w with
  | done result s =>
      rcases result with (r | a) | a
      · cases h
        exact World.leads_store hw hx
      · cases h
      · cases h
        exact World.leads_store hw hx
  | await p s resume ih =>
      have hstore := World.leads_store hw hx.1
      unfold Scheduler.finish at h
      obtain ⟨_, _, ⟨⟩, h⟩ := h.of_bind
      obtain ⟨outcome, w₁, hcomplete, h⟩ := h.of_bind
      have hcompleted := hstore.trans (hs.complete hstore.fair hcomplete).1
      exact hcompleted.trans (ih outcome w₁.store hcompleted.fair (hx.2 outcome w₁.store) h)
  | spawn task s resume ih =>
      unfold Scheduler.finish at h
      obtain ⟨_, _, ⟨⟩, h⟩ := h.of_bind
      obtain ⟨p, w₁, hstart, h⟩ := h.of_bind
      have hstarted := hs.start hw hx.1 hstart
      exact hstarted.trans (ih p w₁.store hstarted.fair (hx.2 p w₁.store) h)

/-- The promises that were left were asked for until they were settled. -/
theorem completeAll_fair {batch : List PromiseRef} (hs : ∀ left, scheduler.Lawful api base left)
    (hw : w.Fair api base batch)
    (h : (forIn batch PUnit.unit fun p _ => do
      let _ ← scheduler.complete rounds p
      pure (ForInStep.yield PUnit.unit) : Sched PUnit).Steps w PUnit.unit w') : w'.Fair api base [] := by
  induction batch generalizing w with
  | nil =>
      cases h
      exact hw
  | cons p batch ih =>
      rw [List.forIn_cons] at h
      obtain ⟨step, w₁, hstep, h⟩ := h.of_bind
      obtain ⟨outcome, w₂, hcomplete, hyield⟩ := hstep.of_bind
      cases hyield
      obtain ⟨hleads, hplain⟩ := (hs (p :: batch)).complete hw hcomplete
      obtain ⟨news, haccounts⟩ := hleads.fair
      exact ih ⟨news, haccounts.discharge hplain⟩ h

/-- No promise is left when a run ends. -/
theorem drain_fair {batches : Nat} (hs : ∀ left, scheduler.Lawful api base left) (hw : w.Fair api base [])
    (h : (scheduler.drain rounds batches).Steps w () w') : w'.Fair api base [] ∧ w'.tracked = #[] := by
  induction batches generalizing w with
  | zero => cases h
  | succ batches ih =>
      have hdrain := drain_succ.symm.trans h
      by_cases hempty : w.tracked.isEmpty
      · rw [if_pos hempty] at hdrain
        cases hdrain
        exact ⟨hw, Array.isEmpty_iff.1 hempty⟩
      · rw [if_neg hempty, ← Array.forIn_toList] at hdrain
        obtain ⟨_, w₁, hall, hrest⟩ := Sched.Steps.of_bind hdrain
        obtain ⟨news, haccounts⟩ := hw
        exact ih (completeAll_fair hs ⟨news, haccounts.release rfl⟩ hall) hrest

end

/-- A run that comes to an end: its computation, and then what was left over. -/
theorem Comp.run_ok {α : Type} {job : Job → Comp Value} {fuel : Nat} {x : Comp α} {s t : Store} {r : Except Raised α} :
    x.run job fuel s = .ok (r, t) ↔ ∃ w₁ w₂, ((scheduler job fuel).finish fuel (x s)).Steps ⟨s, #[], #[]⟩ r w₁ ∧
      ((scheduler job fuel).drain fuel fuel).Steps w₁ () w₂ ∧ w₂.store = t := by
  constructor
  · intro h
    obtain ⟨⟨result, w₂⟩, hsched, hpure⟩ := Except.exists_of_bind_eq_ok h
    cases hpure
    obtain ⟨result', w₁, hfinish, hrest⟩ := Sched.Steps.of_bind hsched
    obtain ⟨_, w₂', hdrain, hpure⟩ := hrest.of_bind
    cases hpure
    exact ⟨w₁, _, hfinish, hdrain, rfl⟩
  · rintro ⟨w₁, w₂, hfinish, hdrain, rfl⟩
    exact Comp.run_of_steps hfinish hdrain

/-- A run of an orderly computation leaves the journal with the whole course of every call. -/
theorem Comp.run_accounts {α : Type} {job : Job → Comp Value} {fuel : Nat} {x : Comp α} {s t : Store}
    {r : Except Raised α} (hjob : ∀ j, (job j).Orderly api) (hx : x.Orderly api) (h : x.run job fuel s = .ok (r, t)) :
    ∃ news promises, Accounts api s.journal [] news t.journal promises #[] := by
  obtain ⟨w₁, w₂, hfinish, hdrain, rfl⟩ := Comp.run_ok.1 h
  have hlawful : ∀ left, (scheduler job fuel).Lawful api s.journal left := fun left => scheduler_lawful hjob fuel
  have hstart : (⟨s, #[], #[]⟩ : World).Fair api s.journal [] := ⟨[], .start api s.journal⟩
  obtain ⟨⟨news, haccounts⟩, htracked⟩ := drain_fair hlawful ((hlawful []).finish hstart (hx s) hfinish).fair hdrain
  rw [htracked] at haccounts
  exact ⟨news, w₂.promises, haccounts⟩

end FieldScript
