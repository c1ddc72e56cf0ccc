import FieldScript.Proofs.Eval.Steps

/-!
# Calls of external functions in both runs

In the first run an external function answers at once. In the second run the call of a function that does
not answer at once is awaited, and comes to the same value.

* `Sim.request`: both runs write a call into their journals and get the same answer.
* `Sim.answer`: the answer becomes a value, at once or behind a promise.
* `Sim.call`: the whole call.
-/

namespace FieldScript

/-! ## The parts of a call -/

theorem Api.get?_synchronous (api : Api) (name : String) :
    api.synchronous.get? name = (api.get? name).map fun f => { f with isAsync := false } := by
  unfold synchronous get?
  induction api.functions with
  | nil => rfl
  | cons entry rest ih =>
      obtain ⟨other, f⟩ := entry
      rw [List.map_cons, List.lookup_cons, List.lookup_cons, ih]
      cases name == other <;> rfl

/-- Writes a call into the journal: its number and the response. -/
def HostFunction.request (f : HostFunction) (owner : Nat) (name : String) (documents : List Json) :
    Act (Nat × Response) := do
  let journal := (← get).journal
  modify fun s => { s with journal := s.journal.record (.call journal.calls owner name documents) }
  return (journal.calls, f.respond (journal.callsOf owner name) documents)

/-- Writes a call with the documents of its arguments into the journal. -/
def HostFunction.placeCall (f : HostFunction) (owner : Nat) (name : String) (args : List Value) :
    Comp (Nat × Response) :=
  Comp.ofAct (args.mapM Value.toDocument) >>= fun documents => Comp.ofAct (f.request owner name documents)

/-- The value of an answer that is given at once. -/
def Response.now (response : Response) : Comp Value :=
  match response.result with
  | .ok j => liftM (Value.ofJson j)
  | .error j => do Act.raise (.thrown (← Value.ofJson j))

/-- The value of an answer that is waited for. -/
def Response.later (response : Response) (id : Nat) : Comp Value := do
  Comp.settle (.promise (← Comp.spawn (.host id response)))

section

variable {c : Setting} {name : String} {f : HostFunction}

theorem callCapability_none (h : c.api.get? name = none) (args : List Value) :
    c.callCapability name args = Comp.ofAct (Act.typeFault (.notFunction ("$api." ++ name))) := by
  unfold Setting.callCapability
  rw [h]
  rfl

theorem callCapability_now (h : c.api.get? name = some f) (hsync : f.isAsync = false) (args : List Value) :
    c.callCapability name args = f.placeCall c.api.owner name args >>= fun p => p.2.now := by
  unfold Setting.callCapability HostFunction.placeCall
  rw [h]
  simp only [hsync, bind_assoc]
  rfl

theorem callCapability_later (h : c.api.get? name = some f) (hasync : f.isAsync = true) (args : List Value) :
    c.callCapability name args >>= Comp.settle =
      f.placeCall c.api.owner name args >>= fun p => p.2.later p.1 := by
  unfold Setting.callCapability HostFunction.placeCall
  rw [h]
  simp only [hasync, bind_assoc]
  rfl

end

theorem Response.now_ok {response : Response} {j : Json} (h : response.result = .ok j) :
    response.now = liftM (Value.ofJson j) := by
  unfold now
  rw [h]

theorem Response.now_error {response : Response} {j : Json} (h : response.result = .error j) (s : Store) :
    response.now s = .done (.error (.raised (.thrown ((Value.ofJson j).run s).1)))
      ((Value.ofJson j).run s).2 := by
  unfold now
  rw [h]
  rfl

theorem Reaches.of_done {run : Nat → Job → Comp Value} {α : Type} {r r' : Except Halt α} {s t : Store}
    (h : Reaches run (fun _ => .done r s) r' t) : r' = r ∧ t = s := by
  obtain ⟨k, h⟩ := h
  cases h 0 with
  | done => exact ⟨rfl, rfl⟩

/-- An answer that is waited for. -/
theorem Reaches.later {run : Nat → Job → Comp Value} {response : Response} {id : Nat} {j : Json} {v : Value}
    {S S' : Store} (hresult : response.result = .ok j)
    (h : (Value.ofJson j).run (S.recording [.start id, .done id]) = (v, S')) :
    Reaches run (fun _ => response.later id S) (.ok v) S' := by
  refine ⟨response.delay + 1 + 0, fun m => ?_⟩
  have houtcome : (Settled.ofAnswer response.result).run (S.recording [.start id, .done id]) =
      (.fulfilled v, S') := by
    rw [hresult]
    show (Settled.fulfilled ((Value.ofJson j).run _).1, ((Value.ofJson j).run _).2) = _
    rw [h]
  exact Lands.host (fun p s => rfl) houtcome (Lands.done _ _)

theorem Store.extends_recording (s : Store) (events : List Event) : s.Extends (s.recording events) := ⟨id, id⟩

theorem Keeps.recording (n n' : Nat) (σ : Scope) (s : Store) (events : List Event) :
    Keeps n n' σ s (s.recording events) := Keeps.of_frames rfl

namespace Scene

variable {scene : Scene} {strict : Bool} {γ : Type} {n : Nat} {T : Store} {Γ : Kind γ} {g₀ : γ}

theorem Sound.recording (hsound : scene.Sound T) (events : List Event) :
    scene.Sound (T.recording events) :=
  have hext := T.extends_recording events
  ⟨hsound.frames, hsound.closed.extend hext hext, hsound.data⟩

theorem At.recording {A S : Store} {j j' : Journal} {β : Pairing} {σ : Scope} {events : List Event}
    (h : scene.At A j β S σ) (hhears : scene.hears j' (S.recording events).journal) :
    scene.At A j' β (S.recording events) σ :=
  h.keep (h.heap.extend (Store.Extends.refl A) (S.extends_recording events)) (fun _ _ h => h) hhears
    (Keeps.recording 0 0 σ S events)

/-- Responses with the same result, which may come at different times. -/
def sameResult : Kind (Nat × Response) := (Kind.same (Except Json Json)).comap fun p => p.2.result

/-- Both runs write a call into their journals. -/
theorem Sim.request (hlaw : scene.Lawful strict) {name : String} {f : HostFunction}
    (hf : scene.setting.api.get? name = some f)
    (F : γ → List Json) (hsound : scene.Sound T) (hsame : ∀ β g, Γ.like β g₀ g → F g = F g₀) :
    scene.Sim T n n ⟨false, strict⟩ []
      (Comp.ofAct (f.request scene.setting.api.owner name (F g₀))) Γ g₀
      (fun _ g _ => Comp.ofAct (f.request scene.setting.api.owner name (F g))) sameResult := by
  have hrun : Comp.ofAct (f.request scene.setting.api.owner name (F g₀)) T = .done
      (.ok (T.journal.calls, f.respond (T.journal.callsOf scene.setting.api.owner name) (F g₀)))
      (T.recording [.call T.journal.calls scene.setting.api.owner name (F g₀)]) := rfl
  refine ⟨_, _, hrun, ?_⟩
  rintro _ ⟨⟩
  have hext := T.extends_recording [.call T.journal.calls scene.setting.api.owner name (F g₀)]
  refine ⟨hsound.recording _, hext.within, rfl, T, fun _ => False, [], ?_⟩
  refine ⟨Nat.le_refl n, Store.Extends.refl T, hext.within, fun _ => hext, fun hquiet s hs => ?_,
    fun _ => ⟨rfl, rfl, rfl⟩, fun _ hx => hx.elim, (fun b hb => nomatch hb), front_nil, ?_⟩
  · exact hlaw.deaf hquiet _ s
  · rintro A A' j j' β S σ g ⟨hreach⟩ hhear hat - honly hlike
    -- what the journals have in common at both ends of the call
    have hhears : scene.hears T.journal S.journal := by
      cases hhear with
      | any => exact hlaw.deaf rfl _ _
      | exact => exact hat.hears
    have hhears' : scene.hears j'
        (S.recording [.call S.journal.calls scene.setting.api.owner name (F g₀)]).journal := by
      cases hhear with
      | any => exact hlaw.deaf rfl _ _
      | exact => exact hlaw.call hat.hears _ _ _ _
    have hrun' : (f.request scene.setting.api.owner name (F g)).run S =
        (.ok (S.journal.calls, f.respond (S.journal.callsOf scene.setting.api.owner name) (F g₀)),
          S.recording [.call S.journal.calls scene.setting.api.owner name (F g₀)]) := by
      rw [hsame β g hlike]
      rfl
    refine ⟨β, _, _, Reaches.act hrun', hat.recording hhears', fun _ _ h => h, fun x z h => .inl h,
      Keeps.recording 0 0 σ S _, ?_⟩
    show (f.respond _ _).result = (f.respond _ _).result
    exact hlaw.answer hhears hf _

/-- An answer that both runs get at once. -/
theorem Sim.now (F : γ → Nat × Response) (hsound : scene.Sound T) (hheld : Γ.Held T g₀)
    (hsame : ∀ β g, Γ.like β g₀ g → (F g).2.result = (F g₀).2.result) :
    scene.Sim T n n Deeds.none [] (F g₀).2.now Γ g₀ (fun _ g _ => (F g).2.now) Kind.value := by
  cases hresult : (F g₀).2.result with
  | error j =>
      exact fail (Response.now_error hresult T)
  | ok j =>
      refine (ofJson j hsound hheld).rerun ?_ ?_
      · rw [Response.now_ok hresult]
      · intro A j' β S σ g hat hlike m
        rw [Response.now_ok ((hsame β g hlike).trans hresult)]

/-- An answer that the second run waits for. -/
theorem Sim.later (hlaw : scene.Lawful strict) (F : γ → Nat × Response) (hsound : scene.Sound T)
    (hheld : Γ.Held T g₀) (hsame : ∀ β g, Γ.like β g₀ g → (F g).2.result = (F g₀).2.result) :
    scene.Sim T n n Deeds.none [] (F g₀).2.now Γ g₀ (fun _ g _ => (F g).2.later (F g).1) Kind.value := by
  obtain ⟨r, T', hrun, hok⟩ := Sim.now F hsound hheld hsame (n := n)
  refine ⟨r, T', hrun, fun v hv => ?_⟩
  obtain ⟨hsound', hwithin, hheld', M, X, B, hpart⟩ := hok v hv
  refine ⟨hsound', hwithin, hheld', M, X, B, { hpart with rest := ?_ }⟩
  intro A A' j j' β S σ g hreach hhear hat hbound honly hlike
  have hat₁ : scene.At A j β (S.recording [.start (F g).1, .done (F g).1]) σ :=
    hat.recording (hlaw.wait hat.hears _)
  have hbound₁ := hbound.mono (fun _ _ h => h)
    (Keeps.recording 0 0 σ S [.start (F g).1, .done (F g).1]) hat.bounds fun _ _ => .inr (Nat.zero_le _)
  obtain ⟨β', S', b, hrun', hat', hβ, hnew, hkeeps, hlike'⟩ :=
    hpart.rest A A' j j' β _ σ g hreach hhear hat₁ hbound₁ honly hlike
  refine ⟨β', S', b, ?_, hat', hβ, hnew, (Keeps.recording 0 0 σ S _).trans hkeeps, hlike'⟩
  cases hresult : (F g).2.result with
  | error e =>
      simp only [Response.now_error hresult] at hrun'
      exact absurd hrun'.of_done.1 (by simp)
  | ok document =>
      simp only [Response.now_ok hresult] at hrun'
      have hdone : Reaches scene.run (fun _ => .done (.ok ((Value.ofJson document).run _).1)
        ((Value.ofJson document).run _).2) (.ok b) S' := hrun'
      obtain ⟨hvalue, hstore⟩ := hdone.of_done
      cases hvalue
      subst hstore
      exact Reaches.later hresult rfl

/-- The documents of arguments. -/
theorem Sim.documents (F : γ → List Value) (hsound : scene.Sound T) (hheld : Γ.Held T g₀)
    (h : ∀ β g, Γ.like β g₀ g → (F g₀).Forall₂ (Value.Like β) (F g)) :
    scene.Sim T n n Deeds.none [] (Comp.ofAct ((F g₀).mapM Value.toDocument)) Γ g₀
      (fun _ g _ => Comp.ofAct ((F g).mapM Value.toDocument)) (Kind.same (List Json)) := by
  refine read (fun g => (F g).mapM Value.toDocument) hsound hheld ?_
  exact fun β S g hheap hlike => Value.toDocuments_reads hheap (h β g hlike)

theorem reference_call_zero (hfuel : scene.fuel = 0) (f : Function) (args : List Value) :
    scene.reference.call f args = Comp.exhausted := by
  unfold reference Setting.context
  rw [hfuel]
  rfl

theorem reference_call_capability {k : Nat} (hfuel : scene.fuel = k + 1) (name : String) (args : List Value) :
    scene.reference.call (.capability name) args =
      { scene.setting with api := scene.setting.api.synchronous : Setting }.callCapability name args := by
  unfold reference Setting.context
  rw [hfuel]
  rfl

/-- A call of the first run. -/
theorem reference_call_some {k : Nat} (hfuel : scene.fuel = k + 1) {name : String} {f : HostFunction}
    (hf : scene.setting.api.get? name = some f) (args : List Value) :
    scene.reference.call (.capability name) args =
      f.placeCall scene.setting.api.owner name args >>= fun p => p.2.now := by
  have hf' : scene.setting.api.synchronous.get? name = some { f with isAsync := false } := by
    rw [Api.get?_synchronous, hf]
    rfl
  rw [reference_call_capability hfuel, callCapability_now hf' rfl]
  rfl

theorem settled_call_capability (m : Nat) (name : String) (args : List Value) :
    (scene.settled m).call (.capability name) args = scene.setting.callCapability name args := rfl

/-- Both runs write a call with the documents of its arguments into their journals. -/
theorem Sim.placeCall (hlaw : scene.Lawful strict) {name : String} {f : HostFunction}
    (hf : scene.setting.api.get? name = some f) (F : γ → List Value) (hsound : scene.Sound T)
    (hheld : Γ.Held T g₀) (h : ∀ β g, Γ.like β g₀ g → (F g₀).Forall₂ (Value.Like β) (F g)) :
    scene.Sim T n n ⟨false, strict⟩ [] (f.placeCall scene.setting.api.owner name (F g₀)) Γ g₀
      (fun _ g _ => f.placeCall scene.setting.api.owner name (F g)) sameResult := by
  refine (Sim.documents F hsound hheld h).after hheld ?_
  intro documents T₁ _ hsound₁ _ hheld₁
  have hsame : ∀ β g, (Γ.pair (Kind.same (List Json))).like β (g₀, documents) g → g.2 = documents :=
    fun _ _ hlike => hlike.2.symm
  have hrequest := Sim.request (n := n) hlaw hf (fun g : γ × List Json => g.2) hsound₁ hsame
  exact hrequest

/-- A value that is no promise may be awaited. -/
theorem Sim.settled {x : Comp Value} {y : Nat → γ → Scope → Comp Value} {n' : Nat} {deeds : Deeds}
    {D : List Stmt} (h : scene.Sim T n n' deeds D x Γ g₀ y Kind.value) (hheld : Γ.Held T g₀) :
    scene.Sim T n n' deeds D x Γ g₀ (fun m g σ => y m g σ >>= Comp.settle) Kind.value := by
  have hpure : scene.Sim T n n' deeds D (x >>= Pure.pure) Γ g₀ (fun m g σ => y m g σ >>= Comp.settle)
      Kind.value := by
    refine h.andThen hheld ?_
    intro v T₁ _ hsound₁ _ hheld₁
    have hvalue : scene.Sim T₁ n' n' Deeds.none [] (Pure.pure v) (Γ.pair Kind.value) (g₀, v)
        (fun _ g _ => Pure.pure g.2) Kind.value :=
      pure (fun g => g.2) hsound₁ hheld₁ fun _ _ hlike => hlike.2
    exact hvalue.rerun rfl fun A j β S σ g _ hlike m => by rw [settle_like hlike.2]
  rwa [bind_pure] at hpure

/-- A call of an external function. What is pending is settled at once. -/
theorem Sim.call (hlaw : scene.Lawful strict) (name : String) (pending : Bool)
    (hpending : scene.setting.capabilities.isAsync name = true → pending = true) (F : γ → List Value)
    (hsound : scene.Sound T) (hheld : Γ.Held T g₀)
    (h : ∀ β g, Γ.like β g₀ g → (F g₀).Forall₂ (Value.Like β) (F g)) :
    scene.Sim T n n ⟨false, strict⟩ [] (scene.reference.call (.capability name) (F g₀)) Γ g₀
      (fun m g _ => (scene.settled m).call (.capability name) (F g) >>= fun v =>
        if pending then Comp.settle v else Pure.pure v) Kind.value := by
  cases hfuel : scene.fuel with
  | zero =>
      rw [reference_call_zero hfuel]
      exact fail rfl
  | succ k =>
      cases hf : scene.setting.api.get? name with
      | none =>
          rw [reference_call_capability hfuel, callCapability_none (by rw [Api.get?_synchronous, hf]; rfl)]
          exact fail rfl
      | some f =>
          rw [reference_call_some hfuel hf]
          simp only [settled_call_capability]
          cases hasync : f.isAsync with
          | true =>
              rw [hpending (hlaw.marked hf hasync)]
              simp only [if_true, callCapability_later hf hasync]
              refine (Sim.placeCall hlaw hf F hsound hheld h).andThen hheld ?_
              intro response T₁ _ hsound₁ _ hheld₁
              exact Sim.later hlaw (fun g => g.2) hsound₁ hheld₁ fun _ _ hlike => hlike.2.symm
          | false =>
              have hnow : scene.Sim T n n ⟨false, strict⟩ []
                  (f.placeCall scene.setting.api.owner name (F g₀) >>= fun p => p.2.now) Γ g₀
                  (fun _ g _ => scene.setting.callCapability name (F g)) Kind.value := by
                simp only [callCapability_now hf hasync]
                refine (Sim.placeCall hlaw hf F hsound hheld h).andThen hheld ?_
                intro response T₁ _ hsound₁ _ hheld₁
                exact Sim.now (fun g => g.2) hsound₁ hheld₁ fun _ _ hlike => hlike.2.symm
              cases pending with
              | true => exact hnow.settled hheld
              | false =>
                  simp only [Bool.false_eq_true, if_false, bind_pure]
                  exact hnow

end Scene

end FieldScript
