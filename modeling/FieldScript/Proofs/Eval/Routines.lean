import FieldScript.Eval.Callback

/-!
# Properties that methods of arrays inherit

Methods of arrays are put together from a few actions: they convert values, make arrays and change the elements of the
array at hand. A property that holds of these actions, and that putting actions together keeps, holds of every method.

* `Act.Routine`: such a property of actions. `ArrayMethod.call_routine` is about the methods that call nothing.
* `Comp.Routine`: the same for computations. `CallbackMethod.call_routine` is about the methods that call functions,
  for functions with the property.
-/

namespace FieldScript

/-- A property of actions that methods of arrays inherit. -/
structure Act.Routine (Q : {α : Type} → Act α → Prop) : Prop where
  pure : ∀ {α : Type} (a : α), Q (Pure.pure a : Act α)
  bind : ∀ {α β : Type} {x : Act α} {f : α → Act β}, Q x → (∀ a, Q (f a)) → Q (x >>= f)
  get : Q (MonadState.get : Act Store)
  raise : ∀ {α : Type} (r : Raised), Q (Act.raise r : Act α)
  write : ∀ (a : ArrayRef) (f : Array Value → Array Value), Q (modify fun s => s.modifyArray a f : Act Unit)
  put : ∀ (a : ArrayRef) (items : Array Value), Q (modify fun s => s.setArray a items : Act Unit)
  make : ∀ items : Array Value, Q (liftM (Change.newArray items) : Act Value)
  text : ∀ v : Value, Q v.toText
  number : ∀ v : Value, Q v.toNumber
  flat : ∀ (levels : Nat) (items : List Value), Q (flatten levels items)

/-- A property of computations that methods of arrays inherit, for actions with a property. -/
structure Comp.Routine (Q : {α : Type} → Act α → Prop) (P : {α : Type} → Comp α → Prop) : Prop where
  pure : ∀ {α : Type} (a : α), P (Pure.pure a : Comp α)
  bind : ∀ {α β : Type} {x : Comp α} {f : α → Comp β}, P x → (∀ a, P (f a)) → P (x >>= f)
  act : ∀ {α : Type} {x : Act α}, Q x → P (Comp.ofAct x)

section

variable {Q : {α : Type} → Act α → Prop} (h : Act.Routine Q)

include h

namespace Act.Routine

theorem mapM {α β : Type} {f : α → Act β} (hf : ∀ a, Q (f a)) (xs : List α) : Q (xs.mapM f) := by
  induction xs with
  | nil => exact h.pure []
  | cons x xs ih =>
      rw [List.mapM_cons]
      exact h.bind (hf x) fun _ => h.bind ih fun _ => h.pure _

theorem elements (v : Value) : Q v.elements := by
  cases v with
  | array a => exact h.bind h.get fun _ => h.pure _
  | string s => exact h.pure _
  | _ => exact h.raise _

theorem relativePosition (v : Value) (size default : Nat) : Q (relativePosition v size default) := by
  unfold FieldScript.relativePosition
  split
  · exact h.pure _
  · refine h.bind (h.number _) fun x => ?_
    dsimp only
    generalize (if x.isNaN then 0.0 else Number.trunc x : Float) = y
    split <;> exact h.pure _

end Act.Routine

theorem ArrayMethod.call_routine (m : ArrayMethod) (a : ArrayRef) (args : List Value) : Q (m.call a args) := by
  refine h.bind h.get fun s => ?_
  cases m with
  | push | pop | shift | unshift | reverse => exact h.bind (h.write a _) fun _ => h.pure _
  | join =>
      have hparts : ∀ separator : String, Q (do
          let parts ← (s.array a).toList.mapM fun v => if v.isNullish then pure "" else v.toText
          return Value.string (separator.intercalate parts)) := by
        refine fun separator => h.bind (h.mapM (fun v => ?_) _) fun _ => h.pure _
        split
        · exact h.pure _
        · exact h.text v
      dsimp only
      split
      · exact h.bind (h.pure _) hparts
      · exact h.bind (h.text _) hparts
  | toString => exact h.bind (h.text _) fun _ => h.pure _
  | includes | indexOf | lastIndexOf => exact h.pure _
  | slice =>
      exact h.bind (h.relativePosition _ _ _) fun _ => h.bind (h.relativePosition _ _ _) fun _ => h.make _
  | concat => exact h.bind h.get fun _ => h.make _
  | flat =>
      have hflat : ∀ levels : Nat, Q (do
          Change.newArray (← flatten levels (s.array a).toList).toArray : Act Value) :=
        fun levels => h.bind (h.flat levels _) fun _ => h.make _
      dsimp only
      split
      · exact h.bind (h.pure _) hflat
      · exact h.bind (h.number _) fun _ => h.bind (h.pure _) hflat

end

section

variable {Q : {α : Type} → Act α → Prop} {P : {α : Type} → Comp α → Prop} (h : Comp.Routine Q P)

include h

theorem Comp.Routine.mapM {α β : Type} {f : α → Comp β} (hf : ∀ a, P (f a)) (xs : List α) : P (xs.mapM f) := by
  induction xs with
  | nil => exact h.pure []
  | cons x xs ih =>
      rw [List.mapM_cons]
      exact h.bind (hf x) fun _ => h.bind ih fun _ => h.pure _

theorem callValue_routine (hQ : Act.Routine Q) {call : Function → List Value → Comp Value}
    (hcall : ∀ f args, P (call f args)) (callee : Value) (args : List Value) : P (callValue call callee args) := by
  cases callee with
  | function f => exact hcall f args
  | _ => exact h.act (hQ.raise _)

namespace CallbackMethod

theorem keep_routine {test : Value → Nat → Comp Bool} (htest : ∀ v i, P (test v i)) (items : List (Value × Nat)) :
    P (keep test items) := by
  induction items with
  | nil => exact h.pure []
  | cons item items ih =>
      refine h.bind (htest item.1 item.2) fun kept => ?_
      split
      · exact h.bind ih fun _ => h.pure _
      · exact ih

theorem first?_routine {test : Value → Nat → Comp Bool} (htest : ∀ v i, P (test v i)) (want : Bool)
    (items : List (Value × Nat)) : P (first? test want items) := by
  induction items with
  | nil => exact h.pure none
  | cons item items ih =>
      refine h.bind (htest item.1 item.2) fun found => ?_
      split
      · exact h.pure _
      · exact ih

theorem combine_routine {step : Value → Value → Nat → Comp Value} (hstep : ∀ acc v i, P (step acc v i)) (acc : Value)
    (items : List (Value × Nat)) : P (combine step acc items) := by
  induction items generalizing acc with
  | nil => exact h.pure acc
  | cons item items ih => exact h.bind (hstep acc item.1 item.2) fun acc => ih acc

theorem insertBehind_routine {exceeds : Value → Value → Comp Bool} (hexceeds : ∀ v w, P (exceeds v w)) (item : Value)
    (sorted : List Value) : P (insertBehind exceeds item sorted) := by
  induction sorted with
  | nil => exact h.pure _
  | cons before rest ih =>
      refine h.bind (hexceeds before item) fun exceeded => ?_
      split
      · exact h.bind ih fun _ => h.pure _
      · exact h.pure _

theorem sortInto_routine {exceeds : Value → Value → Comp Bool} (hexceeds : ∀ v w, P (exceeds v w))
    (sorted items : List Value) : P (sortInto exceeds sorted items) := by
  induction items generalizing sorted with
  | nil => exact h.pure _
  | cons item items ih => exact h.bind (insertBehind_routine h hexceeds item sorted) fun sorted => ih sorted

variable (hQ : Act.Routine Q) {call : Function → List Value → Comp Value} (hcall : ∀ f args, P (call f args))

include hQ hcall

theorem exceeds_routine (comparator before item : Value) : P (exceeds call comparator before item) := by
  unfold exceeds
  split
  · exact h.bind (h.act (hQ.text before)) fun _ => h.bind (h.act (hQ.text item)) fun _ => h.pure _
  · exact h.bind (callValue_routine h hQ hcall _ _) fun answer => h.bind (h.act (hQ.number answer)) fun _ => h.pure _

theorem call_routine (m : CallbackMethod) (a : ArrayRef) (args : List Value) :
    P (CallbackMethod.call call m a args) := by
  have happly : ∀ (v : Value) (i : Nat), P (callValue call (argument args 0)
      [v, .number (Float.ofNat i), .array a]) := fun v i => callValue_routine h hQ hcall _ _
  have htest : ∀ (v : Value) (i : Nat), P (do
      return (← callValue call (argument args 0) [v, .number (Float.ofNat i), .array a]).isTruthy : Comp Bool) :=
    fun v i => h.bind (happly v i) fun _ => h.pure _
  have hmake : ∀ items : Array Value, P (liftM (Change.newArray items) : Comp Value) := fun items =>
    h.act (hQ.make items)
  refine h.bind (h.act (hQ.elements _)) fun items => ?_
  cases m with
  | map => exact h.bind (h.mapM (fun p : Value × Nat => happly p.1 p.2) _) fun _ => hmake _
  | flatMap =>
      exact h.bind (h.mapM (fun p : Value × Nat => happly p.1 p.2) _) fun _ => h.bind (h.act (hQ.flat _ _)) fun _ =>
        hmake _
  | filter => exact h.bind (keep_routine h htest _) fun _ => hmake _
  | forEach => exact h.bind (h.mapM (fun p : Value × Nat => happly p.1 p.2) _) fun _ => h.pure _
  | find | findIndex | any | every => exact h.bind (first?_routine h htest _ _) fun _ => h.pure _
  | reduce =>
      have hstep : ∀ (acc v : Value) (i : Nat), P (callValue call (argument args 0)
          [acc, v, .number (Float.ofNat i), .array a]) := fun acc v i => callValue_routine h hQ hcall _ _
      dsimp only
      split
      · exact combine_routine h hstep _ _
      · exact combine_routine h hstep _ _
      · exact h.act (hQ.raise _)
  | sort =>
      exact h.bind (sortInto_routine h (exceeds_routine h hQ hcall _) _ _) fun _ => h.bind (h.act (hQ.put _ _)) fun _ =>
        h.pure _

end CallbackMethod

end

end FieldScript
