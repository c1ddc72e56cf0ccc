import FieldScript.Proofs.Eval.Borrows
import FieldScript.Proofs.Eval.Routines

/-!
# Cells that are borrowed twice

Arrays and objects are shared, so an operation on an array may come across the same array in its arguments or in what
they contain. The methods and the copying of entries never borrow a cell against the rule: they only convert values
while at most readers are around, and call functions while nothing is borrowed. Writing a property does so in one case:
the length of an array is made of the value while the array is being written, and the text of the value may lead to it.

* `Act.Unaliased`, `Comp.Unaliased`: no cell is borrowed against the rule.
* `borrows_conflict_iff`: which operations borrow a cell against the rule. `ownLength_aborts` is a body with one.
-/

namespace FieldScript

/-- An action that is never aborted for a given cause. -/
def Act.Avoids {α : Type} (abort : Abort) (x : Act α) : Prop := ∀ s, (x.run s).1 ≠ .error (.aborted abort)

/-- The same of a computation up to every point at which it stops, and from there on. -/
def Suspension.Avoids {α : Type} (abort : Abort) : Suspension α → Prop
  | .done result _ => result ≠ .error (.aborted abort)
  | .await _ _ resume => ∀ outcome s, (resume outcome s).Avoids abort
  | .spawn _ _ resume => ∀ p s, (resume p s).Avoids abort

/-- The same of a computation. -/
def Comp.Avoids {α : Type} (abort : Abort) (x : Comp α) : Prop := ∀ s, (x s).Avoids abort

/-! ## Rules -/

namespace Act.Avoids

variable {α β : Type} {abort : Abort}

theorem pure (a : α) : (Pure.pure a : Act α).Avoids abort := fun _ => nofun

theorem raise (r : Raised) : (Act.raise r : Act α).Avoids abort := fun _ => nofun

theorem get : (MonadState.get : Act Store).Avoids abort := fun _ => nofun

theorem update (f : Store → Store) : (modify f : Act Unit).Avoids abort := fun _ => nofun

theorem lift (x : Change α) : (liftM x : Act α).Avoids abort := fun _ => nofun

theorem bind {x : Act α} {f : α → Act β} (hx : x.Avoids abort) (hf : ∀ a, (f a).Avoids abort) :
    (x >>= f).Avoids abort := by
  intro s
  have hs := hx s
  show (ExceptT.bindCont f (x.run s).1 (x.run s).2).1 ≠ _
  cases hresult : (x.run s).1 with
  | ok a => exact hf a _
  | error h =>
      intro heq
      have hcause : h = .aborted abort := Except.error.inj heq
      exact hs (hresult.trans (congrArg Except.error hcause))

theorem read {f : Store → Except Abort α} (h : ∀ s, f s ≠ .error abort) : (Act.read f).Avoids abort := by
  intro s
  rw [run_read_eq]
  cases hf : f s with
  | ok a => exact nofun
  | error other =>
      rintro ⟨⟩
      exact h s hf

theorem forIn {f : α → β → Act (ForInStep β)} (hf : ∀ a b, (f a b).Avoids abort) (xs : List α) (b : β) :
    (ForIn.forIn xs b f).Avoids abort := by
  induction xs generalizing b with
  | nil => exact .pure b
  | cons x xs ih =>
      rw [List.forIn_cons]
      refine (hf x b).bind fun step => ?_
      cases step with
      | done b => exact .pure b
      | yield b => exact ih b

end Act.Avoids

theorem Suspension.Avoids.bind {α β : Type} {abort : Abort} {x : Suspension α} {f : α → Store → Suspension β}
    (hx : x.Avoids abort) (hf : ∀ a s, (f a s).Avoids abort) : (x.bind f).Avoids abort := by
  induction x with
  | done result s =>
      cases result with
      | ok a => exact hf a s
      | error h => exact fun heq => hx (by cases heq; rfl)
  | await p s resume ih => exact fun outcome s => ih outcome s (hx outcome s)
  | spawn task s resume ih => exact fun p s => ih p s (hx p s)

theorem Comp.avoids_routine (abort : Abort) : Comp.Routine (Act.Avoids abort) (Comp.Avoids abort) where
  pure _ _ := nofun
  bind hx hf s := (hx s).bind fun a => hf a
  act hx s := hx s

/-! ## Conversions -/

namespace Store

theorem numberOf_none_ne_aliased (s : Store) (v : Value) : s.numberOf none v ≠ .error .aliased := by
  cases v with
  | array a =>
      show (s.textOf none (s.arrays.size + 1) (.array a) >>= _) ≠ _
      cases htext : s.textOf none (s.arrays.size + 1) (.array a) with
      | ok t => exact nofun
      | error e =>
          rintro ⟨⟩
          exact s.textOf_none_ne_aliased _ _ htext
  | _ => exact nofun

theorem flattened_ne_aliased (s : Store) (bound levels : Nat) (items : List Value) :
    flattened s bound levels items ≠ .error .aliased := by
  induction levels generalizing bound items with
  | zero =>
      unfold flattened
      intro h
      cases h
  | succ levels ih =>
      rw [Borrows.flattened_succ]
      cases hparts : items.mapM (Borrows.flattenedPart s bound levels) with
      | ok parts =>
          intro h
          cases h
      | error e =>
          -- Some element failed: either the bound is used up, or the failure comes from the elements of that element.
          obtain ⟨-, item, -, -, -, hitem⟩ := mapM_error_iff.1 hparts
          rintro ⟨⟩
          cases item with
          | array a =>
              cases bound with
              | zero => cases hitem
              | succ bound => exact ih bound _ hitem
          | _ => cases hitem

end Store

/-- Methods of arrays read no array while it is being written. -/
theorem Act.unaliased_routine : Act.Routine (Act.Avoids .aliased) where
  pure := .pure
  bind := .bind
  get := .get
  raise := .raise
  write _ _ := .update _
  put _ _ := .update _
  make _ := .lift _
  text v := .read fun s => s.textOf_none_ne_aliased _ v
  number v := .read fun s => s.numberOf_none_ne_aliased v
  flat levels items := .read fun s => s.flattened_ne_aliased _ levels items

/-! ## Operations -/

theorem Builtin.assign_avoids (args : List Value) (abort : Abort) : (callPlain .objectAssign args).Avoids abort := by
  have hentries : ∀ v : Value, v.ownEntries.Avoids abort := by
    intro v
    cases v with
    | array a => exact Act.Avoids.get.bind fun _ => .pure _
    | object o => exact Act.Avoids.get.bind fun _ => .pure _
    | _ => exact .pure _
  unfold callPlain
  dsimp only
  split
  · refine Act.Avoids.bind (.forIn (fun source _ => ?_) _ _) fun _ => .pure _
    exact (hentries source).bind fun entries => (Act.Avoids.update _).bind fun _ => .pure _
  · exact .raise _

namespace Value

theorem set_length (a : ArrayRef) (value : Value) : (Value.array a).set "length" value = (do
    let n ← arrayLength (← Act.read fun s => s.numberOf (some a) value)
    modify fun s => s.modifyArray a (resized · n)) := by
  unfold Value.set
  exact if_pos rfl

theorem resize_avoids (abort : Abort) (a : ArrayRef) (x : Float) : Act.Avoids abort (do
    let n ← arrayLength x
    modify fun s => s.modifyArray a (resized · n)) := by
  refine Act.Avoids.bind ?_ fun n => .update _
  unfold arrayLength
  split
  · exact .pure _
  · exact .raise _

/-- Writing anything but the length of an array is not aborted. -/
theorem set_avoids (abort : Abort) (v : Value) (key : String) (value : Value)
    (h : ∀ a, v = .array a → key ≠ "length") : (v.set key value).Avoids abort := by
  unfold Value.set
  split
  · exact Act.Avoids.bind (.read fun _ => nofun) fun _ => .raise _
  · exact Act.Avoids.bind (.read fun _ => nofun) fun _ => .raise _
  · exact .update _
  · rw [if_neg (h _ rfl)]
    split
    · exact .pure _
    · refine Act.Avoids.get.bind fun s => ?_
      split
      · split
        · exact .raise _
        · exact .update _
      · exact .update _
  · exact .pure _

/-- An array is read while it is being written if its length is set to a value whose text leads to it, and in no other
case. -/
theorem set_aliased_iff (v : Value) (key : String) (value : Value) (s : Store) :
    ((v.set key value).run s).1 = .error (.aborted .aliased) ↔
      ∃ a, v = .array a ∧ key = "length" ∧ s.Meets a value := by
  by_cases hlength : ∃ a, v = .array a ∧ key = "length"
  · obtain ⟨a, rfl, rfl⟩ := hlength
    have hmeets : (∃ b, Value.array a = .array b ∧ "length" = "length" ∧ s.Meets b value) ↔ s.Meets a value := by
      constructor
      · rintro ⟨b, ⟨⟩, -, h⟩
        exact h
      · exact fun h => ⟨a, rfl, rfl, h⟩
    -- Behind the conversion nothing is aborted, so it is the conversion that reads the array.
    rw [hmeets, ← s.numberOf_aliased_iff, set_length, Act.read_bind_run]
    cases s.numberOf (some a) value with
    | ok x => exact iff_of_false (resize_avoids .aliased a x s) nofun
    | error abort =>
        show Except.error (Halt.aborted abort) = Except.error (Halt.aborted .aliased) ↔ Except.error abort = _
        simp only [Except.error.injEq, Halt.aborted.injEq]
  · refine iff_of_false (set_avoids .aliased v key value (fun a ha hkey => hlength ⟨a, ha, hkey⟩) s) ?_
    rintro ⟨a, ha, hkey, -⟩
    exact hlength ⟨a, ha, hkey⟩

/-- Writing a property is not aborted if the text of a new length comes to its end beside the array. -/
theorem set_ends (v : Value) (key : String) (value : Value) (s : Store)
    (h : ∀ a, v = .array a → key = "length" → s.Apart a value) (abort : Abort) :
    ((v.set key value).run s).1 ≠ .error (.aborted abort) := by
  by_cases hlength : ∃ a, v = .array a ∧ key = "length"
  · obtain ⟨a, rfl, rfl⟩ := hlength
    obtain ⟨x, hx⟩ := (h a rfl rfl).exists_numberOf
    rw [set_length, Act.read_bind_run, hx]
    exact resize_avoids abort a x s
  · exact set_avoids abort v key value (fun a ha hkey => hlength ⟨a, ha, hkey⟩) s

end Value

/-- Told with the cells that are borrowed meanwhile, the operations are those of the evaluator, and only one of them
borrows a cell against the rule: setting the length of an array to a value whose text leads to that array. Methods,
those that call functions included, and the copying of entries never do, and setting anything else ends with a result or
with something that the body can catch. -/
theorem borrows_conflict_iff (v : Value) (key : String) (value : Value) (s : Store) (a : ArrayRef) (args : List Value)
    (m : ArrayMethod) (m' : CallbackMethod) (invoke : Borrows → Function → List Value → Comp Value) :
    Borrows.free.set v key value = v.set key value ∧
    Borrows.free.arrayMethod m a args = m.call a args ∧
    Borrows.free.callbackMethod invoke m' a args = m'.call (invoke Borrows.free) a args ∧
    Borrows.free.assign args = Builtin.callPlain .objectAssign args ∧
    (Borrows.free.arrayMethod m a args).Avoids .aliased ∧
    ((∀ f args, (invoke Borrows.free f args).Avoids .aliased) →
      (Borrows.free.callbackMethod invoke m' a args).Avoids .aliased) ∧
    (Borrows.free.assign args).Avoids .aliased ∧
    (((Borrows.free.set v key value).run s).1 = .error (.aborted .aliased) ↔
      ∃ b, v = .array b ∧ key = "length" ∧ s.Meets b value) ∧
    ((∀ b, v = .array b → key = "length" → s.Apart b value) →
      ∀ abort, ((Borrows.free.set v key value).run s).1 ≠ .error (.aborted abort)) := by
  have hset := Borrows.set_eq v key value
  have hmethod := Borrows.arrayMethod_eq m a args
  have hcallback := Borrows.callbackMethod_eq invoke m' a args
  have hassign := Borrows.assign_eq args
  refine ⟨hset, hmethod, hcallback, hassign, ?_, fun hinvoke => ?_, ?_, ?_, fun h abort => ?_⟩
  · rw [hmethod]
    exact ArrayMethod.call_routine Act.unaliased_routine m a args
  · rw [hcallback]
    exact CallbackMethod.call_routine (Comp.avoids_routine .aliased) Act.unaliased_routine hinvoke m' a args
  · rw [hassign]
    exact Builtin.assign_avoids args .aliased
  · rw [hset]
    exact v.set_aliased_iff key value s
  · rw [hset]
    exact v.set_ends key value s h abort

/-- The body `(a => { a.length = a; return a; })([])`. -/
def ownLength : Expr :=
  .call (.arrow [.ident ⟨"a", .point 0⟩] (.block (.mk [
      .expr (.assign .assign (.member (accessTree (nameTree "a") "length")) (nameTree "a") (.point 0)) (.point 0),
      .return (some (nameTree "a")) (.point 0)] (.point 0))) false (.point 0))
    [.expr (.array [] (.point 0))] false (.point 0)

/-- A body that is valid and whose run is aborted because an array is read while its length is being set. -/
theorem ownLength_aborts :
    ownLength.validate .empty [] false = .ok () ∧
    (settle ownLength .empty []).toOption.map (fun block => abortOf (invokeAlone block)) = some (some .aliased) := by
  decide +kernel

end FieldScript
