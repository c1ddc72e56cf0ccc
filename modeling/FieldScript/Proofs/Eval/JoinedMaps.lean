import FieldScript.Proofs.Eval.Gathered
import FieldScript.Proofs.Eval.MappedRuns
import FieldScript.Proofs.Settle.CallOrder

/-!
# Waiting for the results of a mapped call

Settling turns `o.map(f)` into `await Promise.all(o.map(f))` once the function that is mapped is asynchronous. For an array
this changes nothing but the waiting. What is no array still meets the fault that it meets without waiting. But behind an
optional link that breaks off there is nothing to walk through, and waiting for it fails where `o?.map(f)` is undefined.

Strategy:

* `Settle.mapCall_ensures`: what settling makes of a mapped call.
* `Eval.mapOn`: what the call does once its receiver is there; `Eval.awaitAll`: what waiting does with its value.
* `mapOn_array`, `mapOn_nothing`, `mapOn_other`: the receivers.
* `finish_awaitAll`: a run that waits for an array ends with what its elements come to.

The result is `awaited_map`; `linkedMap_fails` is a body whose optional link breaks off.
-/

namespace FieldScript

open Settle (awaited joinAll)

/-- A call of `map` on a receiver, behind a link that may be optional. -/
def mapCall (place : Nat → Span) (o : Expr) (optional : Bool) (f : Expr) : Expr :=
  .call (.member o (.name ⟨"map", place 0⟩) optional (place 1)) [.expr f] false (place 2)

/-! ## Settling -/

/-- A mapped call is waited for if the function that is mapped becomes asynchronous. -/
theorem Settle.mapCall_ensures (out : Outside) (s : State) (place : Nat → Span) (o : Expr) (optional : Bool)
    (params : List Pattern) (body : ArrowBody) (isAsync : Bool) :
    Walk.Ensures (Settle.expr (mapCall place o optional (.arrow params body isAsync (place 3)))) out s fun r _ =>
      ∃ o' params' body' isAsync', r =
        let call := mapCall place o' optional (.arrow params' body' isAsync' (place 3))
        if isAsync' then (joinAll call, true) else (call, false) := by
  have hcallee : Walk.Ensures (inPlace (expr (.member o (.name ⟨"map", place 0⟩) optional (place 1)))) out s fun e _ =>
      ∃ o', e = .member o' (.name ⟨"map", place 0⟩) optional (place 1) := by
    refine inPlace_ensures (M := fun r _ => ∃ o', r = (.member o' (.name ⟨"map", place 0⟩) optional (place 1), false)) ?_
      ?_ ?_
    · rw [expr]
      refine Walk.Ensures.skip fun o' s' => ?_
      rw [key]
      exact ⟨o', rfl⟩
    · rintro e s' ⟨o', heq⟩
      cases heq
    · rintro e s' ⟨o', heq⟩
      cases heq
      exact ⟨o', rfl⟩
  have hargs : ∀ s, Walk.Ensures (items [.expr (.arrow params body isAsync (place 3))]) out s fun args _ =>
      ∃ params' body' isAsync', args = [.expr (.arrow params' body' isAsync' (place 3))] := by
    intro s
    rw [items]
    refine Walk.Ensures.bind (M := fun e _ => ∃ params' body' isAsync', e = .arrow params' body' isAsync' (place 3)) ?_ ?_
    · refine inPlace_ensures (M := fun r _ => ∃ params' body' isAsync', r = (.arrow params' body' isAsync' (place 3), false))
        ?_ ?_ ?_
      · rw [expr]
        exact Walk.Ensures.skip fun r s' => ⟨_, _, _, rfl⟩
      · rintro e s' ⟨_, _, _, heq⟩
        cases heq
      · rintro e s' ⟨params', body', isAsync', heq⟩
        cases heq
        exact ⟨params', body', isAsync', rfl⟩
    · rintro e s' ⟨params', body', isAsync', rfl⟩
      rw [items]
      exact ⟨params', body', isAsync', rfl⟩
  unfold mapCall
  rw [expr]
  refine Walk.Ensures.bind (M := fun b s' => b = false ∧ s' = s) (callsAsync_ensures ⟨rfl, rfl⟩) ?_
  rintro _ _ ⟨rfl, rfl⟩
  refine Walk.Ensures.bind hcallee ?_
  rintro _ s₁ ⟨o', rfl⟩
  refine Walk.Ensures.bind (hargs s₁) ?_
  rintro _ s₂ ⟨params', body', isAsync', rfl⟩
  refine ⟨o', params', body', isAsync', ?_⟩
  cases isAsync' <;> rfl

/-! ## Evaluation -/

namespace Eval

variable {c : Context} {σ : Scope} {s : Store}

/-- Calls what was found under the name of `map` with a function. -/
def callMapped (c : Context) (o : Expr) (f : Closure) (m : Value) : Comp (Option Value) := do
  let ref ← (modifyGet fun s => s.addClosure f : Act ClosureRef)
  match m with
  | .function m => return some (← c.call m [.function (.closure ref)])
  | _ => Act.typeFault (.notFunction (o.calleeName ++ "." ++ "map"))

/-- What a call of `map` with a function does once its receiver is there. -/
def mapOn (c : Context) (o : Expr) (optional : Bool) (f : Closure) (receiver : Option Value) : Comp (Option Value) :=
  match receiver with
  | none => return none
  | some v =>
    if optional && v.isNullish then return none
    else do callMapped c o f (← v.get "map")

/-- Waits for the elements of a value. -/
def awaitAll (v : Option Value) : Comp (Option Value) := do
  let vs ← (v.getD .undefined).elements
  let p ← Comp.spawn (.all vs)
  return some (← Comp.settle (.promise p))

theorem values_arrow (params : List Pattern) (body : ArrowBody) (isAsync : Bool) (span : Span) :
    values c [.expr (.arrow params body isAsync span)] σ =
      Comp.ofAct (modifyGet fun s => s.addClosure ⟨params, body, isAsync, σ⟩) >>= fun ref =>
        pure [.function (.closure ref)] := by
  rw [values, values, link]
  unfold orUndefined
  simp only [bind_assoc, pure_bind, Option.getD_some]
  rfl

theorem link_mapCall (place : Nat → Span) (o : Expr) (optional : Bool) (params : List Pattern) (body : ArrowBody)
    (isAsync : Bool) : link c (mapCall place o optional (.arrow params body isAsync (place 3))) σ =
      link c o σ >>= mapOn c o optional ⟨params, body, isAsync, σ⟩ := by
  unfold mapCall
  rw [link, link]
  simp only [bind_assoc]
  congr 1
  funext receiver
  cases receiver with
  | none => rfl
  | some v =>
      by_cases hbroken : (optional && v.isNullish) = true
      · simp only [mapOn, hbroken, if_true, pure_bind]
      · simp only [mapOn, hbroken, keyName, Bool.false_and, Bool.false_eq_true, if_false, bind_assoc, pure_bind, values_arrow]
        rfl

/-- What a call of `map` that is waited for does. -/
theorem link_awaited_joinAll (fuel : Nat) {c : Setting} (hcap : c.capabilities.contains "Promise" = false)
    (hargs : c.args.contains "Promise" = false) (hfree : Scope.find? s "Promise" σ = none) (e : Expr) :
    link (c.context (fuel + 1)) (awaited (joinAll e)) σ s =
      (link (c.context (fuel + 1)) e σ >>= awaitAll) (s.addObject promiseEntries).2 := by
  have hcallee := link_promiseAll (c.context (fuel + 1)) hcap hargs hfree e.span
  have hall : ∀ v : Value, (c.context (fuel + 1)).call (.builtin .promiseAll) [v] =
      Comp.ofAct v.elements >>= fun vs => Comp.spawn (.all vs) >>= fun p => pure (.promise p) := fun _ => rfl
  unfold awaited joinAll
  rw [link]
  unfold orUndefined
  simp only [bind_assoc, pure_bind]
  show Suspension.bind (link _ _ _ _) _ = _
  rw [link_callee hcallee]
  show (((values (c.context (fuel + 1)) [.expr e] σ >>= fun vs => (c.context (fuel + 1)).call (.builtin .promiseAll) vs >>=
    fun v => pure (some v)) >>= fun r => Comp.settle (r.getD .undefined) >>= fun v => pure (some v)) : Comp (Option Value))
      (s.addObject promiseEntries).2 = _
  rw [values, values]
  unfold orUndefined
  simp only [bind_assoc, pure_bind, hall, Option.getD_some]
  rfl

/-! ### Receivers -/

variable {o : Expr} {optional : Bool} {f : Closure}

/-- A fault that is raised in a store. -/
abbrev faulted {α : Type} (fault : TypeFault) (s : Store) : Suspension α := .done (.error (.raised (.type fault))) s

theorem mapOn_some {v : Value} (h : (optional && v.isNullish) = false) :
    mapOn c o optional f (some v) = Comp.ofAct (v.get "map") >>= callMapped c o f := by
  simp only [mapOn, h, Bool.false_eq_true, if_false]
  rfl

/-- The calls of a function for the elements of an array, one after another. -/
def askMapped (c : Setting) (fuel : Nat) (f : Closure) (a : ArrayRef) (items : Array Value) : Comp (List Value) := fun s =>
  askAll (c.callFunction (fuel + 2) (fuel + 1)) ⟨s.closures.size⟩ a items.toList.zipIdx (s.addClosure f).2

/-- An array: the function is called for its elements. -/
theorem mapOn_array (fuel : Nat) {c : Setting} {a : ArrayRef} {items : Array Value}
    (hitems : s.arrays[a.index]? = some items) :
    mapOn (c.context (fuel + 2)) o optional f (some (.array a)) s =
      (askMapped c fuel f a items >>= fun vs => Comp.ofAct (Change.newArray vs.toArray) >>= fun v => pure (some v)) s := by
  have hget : ((Value.array a).get "map").run s = (.ok (.function (.method (.callback a .map))), s) := rfl
  have hcall := call_map (c := c) (s := (s.addClosure f).2) fuel ⟨s.closures.size⟩ hitems
  -- The method is found before the function is made.
  rw [mapOn_some (Bool.and_false _), Comp.ofAct_bind hget]
  show Suspension.bind ((c.context (fuel + 2)).call _ _ (s.addClosure f).2) _ = _
  rw [hcall]
  show ((askAll _ _ _ _ >>= fun vs => Comp.ofAct (Change.newArray vs.toArray)) >>= fun v => pure (some v))
    (s.addClosure f).2 = _
  rw [bind_assoc]
  rfl

/-- No receiver, or nothing behind an optional link: the call is undefined. -/
theorem mapOn_nothing {receiver : Option Value} (h : ∀ v, receiver = some v → optional = true ∧ v.isNullish = true) :
    mapOn c o optional f receiver s = .done (.ok none) s := by
  cases receiver with
  | none => rfl
  | some v =>
      obtain ⟨rfl, hv⟩ := h v rfl
      simp only [mapOn, hv, Bool.and_true, if_true]
      rfl

/-- Any other receiver, unless it is an object with a function of that name: the fault is the same for every function. -/
theorem mapOn_other {v : Value} (hbroken : ¬(optional = true ∧ v.isNullish = true)) (harray : ∀ a, v ≠ .array a)
    (hobject : ∀ r g, v = .object r → (s.object r).lookup "map" ≠ some (.function g)) :
    ∃ fault, ∀ f, ∃ s', mapOn c o optional f (some v) s = faulted fault s' := by
  have hlink : (optional && v.isNullish) = false := by simpa using hbroken
  by_cases hnothing : v.isNullish = true
  · -- There is no property to read.
    have hget : ∃ fault, (v.get "map").run s = (.error (.raised (.type fault)), s) := by
      have htext : ∃ text, v.toText.run s = (.ok text, s) := by
        cases v with
        | undefined => exact ⟨"undefined", Act.run_read (by simp [Store.text, Store.textOf])⟩
        | null => exact ⟨"null", Act.run_read (by simp [Store.text, Store.textOf])⟩
        | _ => cases hnothing
      obtain ⟨text, htext⟩ := htext
      refine ⟨.readOfNothing text "map", ?_⟩
      unfold Value.get
      rw [if_pos hnothing, Act.run_bind_ok htext]
      rfl
    obtain ⟨fault, hget⟩ := hget
    refine ⟨fault, fun f => ⟨s, ?_⟩⟩
    rw [mapOn_some hlink]
    show Suspension.bind (Comp.ofAct (v.get "map") s) _ = _
    unfold Comp.ofAct
    rw [hget]
    rfl
  · -- What is read is no function.
    have hget : ∃ m, (v.get "map").run s = (.ok m, s) ∧ ∀ g, m ≠ .function g := by
      cases v with
      | undefined => exact absurd rfl hnothing
      | null => exact absurd rfl hnothing
      | array a => exact absurd rfl (harray a)
      | object r =>
          refine ⟨((s.object r).lookup "map").getD .undefined, rfl, ?_⟩
          intro g heq
          cases hlookup : (s.object r).lookup "map" with
          | none =>
              rw [hlookup] at heq
              cases heq
          | some m =>
              rw [hlookup] at heq
              exact hobject r g rfl (hlookup.trans (congrArg some heq))
      | _ => exact ⟨.undefined, rfl, fun _ h => Value.noConfusion h⟩
    obtain ⟨m, hget, hfunction⟩ := hget
    refine ⟨.notFunction (o.calleeName ++ "." ++ "map"), fun f => ⟨(s.addClosure f).2, ?_⟩⟩
    rw [mapOn_some hlink, Comp.ofAct_bind hget]
    cases m with
    | function g => exact absurd rfl (hfunction g)
    | _ => rfl

end Eval

/-! ## Runs -/

section

variable {α β : Type} {sched : Scheduler} {rounds : Nat} {w w' : World} {s : Store}

/-- A run of a computation behind another: the first one raises, or the second one goes on with its result. -/
theorem Scheduler.finish_bind {x : Suspension α} {f : α → Store → Suspension β} {result : Except Raised β}
    (h : (sched.finish rounds (x.bind f)).Steps w result w') :
    (∃ r, (sched.finish rounds x).Steps w (.error r) w' ∧ result = .error r) ∨
      ∃ a w₁, (sched.finish rounds x).Steps w (.ok a) w₁ ∧ (sched.finish rounds (f a w₁.store)).Steps w₁ result w' := by
  -- Along the computation: what is waited for and asked for is the same in both runs.
  induction x generalizing w with
  | done end? s =>
      rcases end? with (r | a) | a
      · cases h
        exact .inl ⟨r, rfl, rfl⟩
      · cases h
      · exact .inr ⟨a, { w with store := s }, rfl, finish_store.2 h⟩
  | await p s resume ih =>
      obtain ⟨outcome, w₁, hcomplete, h⟩ := finish_await.1 h
      rcases ih outcome w₁.store h with ⟨r, hx, rfl⟩ | ⟨a, w₂, hx, hrest⟩
      · exact .inl ⟨r, finish_await.2 ⟨outcome, w₁, hcomplete, hx⟩, rfl⟩
      · exact .inr ⟨a, w₂, finish_await.2 ⟨outcome, w₁, hcomplete, hx⟩, hrest⟩
  | spawn task s resume ih =>
      obtain ⟨p, w₁, hstart, h⟩ := finish_spawn.1 h
      rcases ih p w₁.store h with ⟨r, hx, rfl⟩ | ⟨a, w₂, hx, hrest⟩
      · exact .inl ⟨r, finish_spawn.2 ⟨p, w₁, hstart, hx⟩, rfl⟩
      · exact .inr ⟨a, w₂, finish_spawn.2 ⟨p, w₁, hstart, hx⟩, hrest⟩

/-- What a run ends with that waits for values. -/
def Settled.joined : Settled → Except Raised (Option Value)
  | .fulfilled v => .ok (some v)
  | .rejected v => .error (.thrown v)

/-- A run that waits for the elements of a new array ends with what they come to. -/
theorem finish_awaitAll {run : Job → Comp Value} {levels : Nat} {vs : List Value} {result : Except Raised (Option Value)}
    (h : ((scheduler run levels).finish rounds ((Comp.ofAct (Change.newArray vs.toArray) >>= fun v =>
      pure (some v) >>= Eval.awaitAll) s)).Steps w result w') :
    ∃ outcome, w'.Gathers vs outcome ∧ result = outcome.joined := by
  have hnew : (liftM (Change.newArray vs.toArray) : Act Value).run s =
      (.ok (.array (s.addArray vs.toArray).1), (s.addArray vs.toArray).2) := rfl
  have helements : ((Value.array (s.addArray vs.toArray).1).elements).run (s.addArray vs.toArray).2 =
      (.ok vs, (s.addArray vs.toArray).2) := by
    show (Except.ok ((s.addArray vs.toArray).2.array (s.addArray vs.toArray).1).toList, _) = _
    rw [Store.array_addArray]
  have hwaits : (Comp.ofAct (Change.newArray vs.toArray) >>= fun v => pure (some v) >>= Eval.awaitAll) s =
      .spawn (.all vs) (s.addArray vs.toArray).2 fun p s => .await p s fun outcome s =>
        .done (Raised.halt outcome.joined) s := by
    rw [Comp.ofAct_bind hnew, pure_bind]
    refine (Comp.ofAct_bind helements _).trans ?_
    show Suspension.spawn _ _ _ = _
    congr 1
    funext p s
    show Suspension.await _ _ _ = _
    congr 1
    funext outcome s
    cases outcome <;> rfl
  rw [hwaits] at h
  cases levels with
  | zero =>
      obtain ⟨_, _, ⟨⟩, _⟩ := Scheduler.finish_spawn.1 h
  | succ levels =>
      obtain ⟨p, w₁, hstart, h⟩ := Scheduler.finish_spawn.1 h
      obtain ⟨rfl, rfl⟩ := start_all.unique hstart
      obtain ⟨outcome, w₂, hcomplete, h⟩ := Scheduler.finish_await.1 h
      have hslot : (w.withPromise (.ofValues vs) (s.addArray vs.toArray).2).promises[w.promises.size]? =
          some (.ofValues vs) := Array.getElem?_push_size
      have hgathers := complete_gathers hslot (World.gathering_ofValues vs) hcomplete
      refine ⟨outcome, ?_, ?_⟩
      · cases outcome <;> cases h <;> exact hgathers
      · cases outcome <;> cases h <;> rfl

end

open Eval in
/-- How a mapped call that is waited for compares to the call with a function that is not asynchronous, receiver by
receiver. -/
structure WaitsForMap (c : Setting) (fuel : Nat) (o : Expr) (optional : Bool) (f : Bool → Closure) : Prop where
  /-- Both call the function for the elements of an array, and a run that waits ends with what the results come to. -/
  array : ∀ {s : Store} {a : ArrayRef} {items : Array Value}, s.arrays[a.index]? = some items →
    mapOn (c.context (fuel + 2)) o optional (f false) (some (.array a)) s =
      (askMapped c fuel (f false) a items >>= fun vs => Comp.ofAct (Change.newArray vs.toArray) >>=
        fun v => pure (some v)) s ∧
    ∀ {run : Job → Comp Value} {levels rounds : Nat} {w w' : World} {result : Except Raised (Option Value)},
      ((scheduler run levels).finish rounds
        ((mapOn (c.context (fuel + 2)) o optional (f true) (some (.array a)) >>= awaitAll) s)).Steps w result w' →
      (∃ r, ((scheduler run levels).finish rounds (askMapped c fuel (f true) a items s)).Steps w (.error r) w' ∧
        result = .error r) ∨
      ∃ vs w₁ outcome, ((scheduler run levels).finish rounds (askMapped c fuel (f true) a items s)).Steps w (.ok vs) w₁ ∧
        w'.Gathers vs outcome ∧ result = outcome.joined
  /-- Behind an optional link that breaks off the call is undefined, and waiting for it fails. -/
  nothing : ∀ {s : Store} {receiver : Option Value},
    (∀ v, receiver = some v → optional = true ∧ v.isNullish = true) →
    mapOn (c.context (fuel + 2)) o optional (f false) receiver s = .done (.ok none) s ∧
    (mapOn (c.context (fuel + 2)) o optional (f true) receiver >>= awaitAll) s = faulted (.notIterable "undefined") s
  /-- On any other receiver both meet the same fault, unless it is an object with a function called `map`. -/
  other : ∀ {s : Store} {v : Value}, ¬(optional = true ∧ v.isNullish = true) → (∀ a, v ≠ .array a) →
    (∀ r g, v = .object r → (s.object r).lookup "map" ≠ some (.function g)) →
    ∃ fault, (∃ s', mapOn (c.context (fuel + 2)) o optional (f false) (some v) s = faulted fault s') ∧
      ∃ s', (mapOn (c.context (fuel + 2)) o optional (f true) (some v) >>= awaitAll) s = faulted fault s'

open Eval in
theorem waitsForMap (c : Setting) (fuel : Nat) (o : Expr) (optional : Bool) (f : Bool → Closure) :
    WaitsForMap c fuel o optional f := by
  refine ⟨?_, ?_, ?_⟩
  · intro s a items hitems
    refine ⟨mapOn_array fuel hitems, ?_⟩
    intro run levels rounds w w' result h
    have hcalls : (mapOn (c.context (fuel + 2)) o optional (f true) (some (.array a)) >>= awaitAll) s =
        (askMapped c fuel (f true) a items s).bind fun vs s =>
          (Comp.ofAct (Change.newArray vs.toArray) >>= fun v => pure (some v) >>= awaitAll) s := by
      show Suspension.bind (mapOn _ _ _ _ _ s) _ = _
      rw [mapOn_array fuel hitems]
      show ((askMapped c fuel (f true) a items >>= _) >>= awaitAll) s = _
      simp only [bind_assoc]
      rfl
    rw [hcalls] at h
    rcases Scheduler.finish_bind h with hraised | ⟨vs, w₁, hask, hrest⟩
    · exact .inl hraised
    · obtain ⟨outcome, hgathers, hresult⟩ := finish_awaitAll hrest
      exact .inr ⟨vs, w₁, outcome, hask, hgathers, hresult⟩
  · intro s receiver hnothing
    refine ⟨mapOn_nothing hnothing, ?_⟩
    show Suspension.bind (mapOn _ _ _ _ receiver s) _ = _
    rw [mapOn_nothing hnothing]
    rfl
  · intro s v hlink harray hobject
    obtain ⟨fault, hfault⟩ := mapOn_other (c := c.context (fuel + 2)) (o := o) hlink harray hobject
    obtain ⟨s', hs'⟩ := hfault (f true)
    refine ⟨fault, hfault (f false), s', ?_⟩
    show Suspension.bind (mapOn _ _ _ _ (some v) s) _ = _
    rw [hs']
    rfl

open Eval in
/-- A mapped call that settling waits for, compared to the call itself with a function that is not asynchronous: both
evaluate the receiver first, and what follows differs in the waiting and behind an optional link that breaks off. -/
theorem awaited_map (fuel : Nat) {out : Settle.Outside} {st : Settle.State} {place : Nat → Span} {o e : Expr}
    {optional isAsync : Bool} {params : List Pattern} {body : ArrowBody} (c : Setting) (σ : Scope) (s : Store)
    (hvisit : ((Settle.expr (mapCall place o optional (.arrow params body isAsync (place 3))) out).run st).1 = (e, true))
    (hcap : c.capabilities.contains "Promise" = false) (hargs : c.args.contains "Promise" = false)
    (hfree : Scope.find? s "Promise" σ = none) :
    ∃ o' params' body', e = joinAll (mapCall place o' optional (.arrow params' body' true (place 3))) ∧
      link (c.context (fuel + 2)) (mapCall place o' optional (.arrow params' body' false (place 3))) σ =
        link (c.context (fuel + 2)) o' σ >>= mapOn (c.context (fuel + 2)) o' optional ⟨params', body', false, σ⟩ ∧
      link (c.context (fuel + 2)) (awaited e) σ s = (link (c.context (fuel + 2)) o' σ >>= fun receiver =>
        mapOn (c.context (fuel + 2)) o' optional ⟨params', body', true, σ⟩ receiver >>= awaitAll)
          (s.addObject promiseEntries).2 ∧
      WaitsForMap c fuel o' optional fun isAsync => ⟨params', body', isAsync, σ⟩ := by
  obtain ⟨o', params', body', isAsync', heq⟩ := Settle.mapCall_ensures out st place o optional params body isAsync
  rw [hvisit] at heq
  cases isAsync' with
  | false => cases heq
  | true =>
      cases heq
      refine ⟨o', params', body', rfl, link_mapCall place o' optional params' body' false, ?_, waitsForMap ..⟩
      rw [link_awaited_joinAll (fuel + 1) hcap hargs hfree, link_mapCall, bind_assoc]

/-- The body `xs?.map(x => get(x))`. -/
def linkedMap : Expr :=
  mapCall (fun _ => .point 0) (nameTree "xs") true
    (.arrow [.ident ⟨"x", .point 0⟩] (.expr (askTree (fun _ => .point 0) "x" "get")) false (.point 0))

/-- What the body runs against, with null for `xs`. -/
def linkedSetting : Setting := ⟨⟨[("get", true)]⟩, getAndPost, ["xs"], ⟨0⟩⟩

/-- A store with null for `xs`. -/
def linkedStore : Store := { Store.empty Journal.empty with objects := #[[("xs", .null)]], frames := #[[], []] }

/-- What settling makes of the call fails on null. -/
theorem linkedMap_awaited :
    ∃ e s', ((Settle.expr linkedMap ⟨⟨[("get", true)]⟩, ["xs"]⟩).run ⟨Locals.empty.push, false, [], 0, []⟩).1 = (e, true) ∧
      linkedSetting.capabilities.contains "Promise" = false ∧ linkedSetting.args.contains "Promise" = false ∧
      Scope.find? linkedStore "Promise" Scope.body = none ∧
      Eval.link (linkedSetting.context 2) (awaited e) Scope.body linkedStore =
        Eval.faulted (.notIterable "undefined") s' := by
  have hvisit : ((Settle.expr linkedMap ⟨⟨[("get", true)]⟩, ["xs"]⟩).run ⟨Locals.empty.push, false, [], 0, []⟩).1 =
      (joinAll (mapCall (fun _ => .point 0) (nameTree "xs") true (askArrow (fun _ => .point 0) "x" "get")), true) := rfl
  obtain ⟨o', params', body', heq, -, hawaited, hreceivers⟩ := awaited_map 0 linkedSetting Scope.body linkedStore hvisit rfl
    rfl rfl
  obtain rfl : nameTree "xs" = o' := by
    cases heq
    rfl
  have hlookup : (linkedSetting.lookup "xs" Scope.body).run (linkedStore.addObject promiseEntries).2 =
      (.ok .null, (linkedStore.addObject promiseEntries).2) := rfl
  have hnull : ∀ v, some Value.null = some v → true = true ∧ v.isNullish = true := by
    intro v heq
    cases heq
    exact ⟨rfl, rfl⟩
  refine ⟨_, (linkedStore.addObject promiseEntries).2, hvisit, rfl, rfl, rfl, ?_⟩
  rw [hawaited]
  show Suspension.bind (Eval.link _ (.identifier "xs" (.point 0)) _ _) _ = _
  rw [Eval.link_name hlookup]
  exact (hreceivers.nothing hnull).2

/-- Whether a run answers null. -/
def answersNull (run : Except Abort Invocation) : Bool :=
  match run with
  | .ok ⟨.ok .null, _⟩ => true
  | _ => false

/-- Behind a link that breaks off the body is undefined as it is written, but fails once it is settled. -/
theorem linkedMap_fails :
    ((written linkedMap ⟨[("get", true)]⟩ ["xs"]).toOption.any fun block => answersNull
      (invoke defaultFuel ⟨[("get", true)]⟩ getAndPost.synchronous ["xs"] block (.object [("xs", .null)]) Journal.empty)) =
        true ∧
    ((settle linkedMap ⟨[("get", true)]⟩ ["xs"]).toOption.bind fun block => faultText
      (invoke defaultFuel ⟨[("get", true)]⟩ getAndPost ["xs"] block (.object [("xs", .null)]) Journal.empty)) =
        some "\x7b\"name\":\"TypeError\",\"message\":\"undefined is not iterable\"\x7d" := by
  constructor
  all_goals decide +kernel

end FieldScript
