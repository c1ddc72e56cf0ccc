import FieldScript.Eval.Builtin
import FieldScript.Proofs.Eval.HeldTexts

/-!
# Cells that are borrowed while they are used

A cell is borrowed while it is read or written: any number of readers may share it, but a writer needs it for itself.
An operation that borrows a cell against this rule ends the run. Here the operations that read and write arrays and
objects are told step by step with the cells that are borrowed meanwhile, and each of them is shown to be the operation
of the evaluator if nothing is borrowed when it starts.

* `Borrows.reading` and `Borrows.writing`: a cell is borrowed for a part of an operation.
* `Borrows.text_eq`, `Borrows.number_eq`: conversions read every array on their way. With an array that is being
  written, they are the conversions of the evaluator that may not read that array.
* `Borrows.set_eq`, `Borrows.arrayMethod_eq`, `Borrows.callbackMethod_eq`, `Borrows.assign_eq`: the operations.
-/

namespace FieldScript

/-! ## Actions that read the store -/

namespace Act

variable {α β γ : Type}

theorem read_bind_run (f : Store → Except Abort α) (g : α → Act β) (s : Store) :
    (Act.read f >>= g).run s = match f s with
      | .ok a => (g a).run s
      | .error abort => (.error (.aborted abort), s) := by
  show ExceptT.bindCont g ((Act.read f).run s).1 ((Act.read f).run s).2 = _
  rw [run_read_eq]
  cases f s <;> rfl

/-- What is read off the store and off what has been read. -/
theorem get_bind_read (f : Store → Store → Except Abort α) :
    (do let s ← get; Act.read (f s) : Act α) = Act.read fun s => f s s := rfl

theorem read_bind_pure (f : Store → Except Abort α) (g : α → β) :
    (do let a ← Act.read f; return g a) = Act.read fun s => do return g (← f s) := by
  funext s
  show (Act.read f >>= fun a => Pure.pure (g a)).run s = (Act.read _).run s
  rw [read_bind_run, run_read_eq]
  cases f s <;> rfl

theorem read_bind_get (f : Store → Except Abort α) (g : α → Store → Act β) :
    (Act.read f >>= fun a => get >>= g a) = get >>= fun s => Act.read f >>= fun a => g a s := by
  funext s
  show (Act.read f >>= fun a => get >>= g a).run s = (Act.read f >>= fun a => g a s).run s
  rw [read_bind_run, read_bind_run]
  cases f s <;> rfl

theorem mapM_read (f : γ → Store → Except Abort α) (xs : List γ) :
    (xs.mapM fun x => Act.read (f x)) = Act.read fun s => xs.mapM (f · s) := by
  induction xs with
  | nil => rfl
  | cons x xs ih =>
      funext s
      show ((x :: xs).mapM fun x => Act.read (f x)).run s = (Act.read _).run s
      rw [List.mapM_cons, ih, read_bind_run, run_read_eq, List.mapM_cons]
      cases f x s with
      | error e => rfl
      | ok a =>
          show (Act.read _ >>= _).run s = _
          rw [read_bind_run]
          cases xs.mapM (f · s) <;> rfl

end Act

/-! ## Borrowed cells -/

/-- The cells that are being read, and the cells that are being written. -/
structure Borrows where
  shared : List Cell
  exclusive : List Cell

namespace Borrows

variable {α : Type} {b : Borrows} {c : Cell} {body : Borrows → Act α}

/-- Nothing is borrowed. -/
def free : Borrows := ⟨[], []⟩

/-- Reads a cell meanwhile. -/
def reading (b : Borrows) (c : Cell) (body : Borrows → Act α) : Act α :=
  if c ∈ b.exclusive then throw (.aborted .aliased) else body { b with shared := c :: b.shared }

/-- Writes a cell meanwhile. -/
def writing (b : Borrows) (c : Cell) (body : Borrows → Act α) : Act α :=
  if c ∈ b.exclusive ∨ c ∈ b.shared then throw (.aborted .aliased) else body { b with exclusive := c :: b.exclusive }

/-- The array that is being written, if it is the only cell that is. -/
def Holds (b : Borrows) (held : Option ArrayRef) : Prop := b.exclusive = (held.map fun a => Cell.array a.index).toList

theorem free_holds : free.Holds none := rfl

theorem Holds.reading {held : Option ArrayRef} (h : b.Holds held) (c : Cell) :
    Holds { b with shared := c :: b.shared } held := h

theorem Holds.mem_iff {held : Option ArrayRef} (h : b.Holds held) (a : ArrayRef) :
    .array a.index ∈ b.exclusive ↔ held = some a := by
  unfold Holds at h
  cases held with
  | none => simp [h]
  | some a' =>
      obtain ⟨i⟩ := a
      obtain ⟨i'⟩ := a'
      simp [h, eq_comm]

theorem Holds.reading_eq (h : b.Holds none) : b.reading c body = body { b with shared := c :: b.shared } :=
  if_neg (by rw [h]; exact List.not_mem_nil)

theorem free_writing : free.writing c body = body ⟨[], [c]⟩ := rfl

/-! ## Conversions -/

/-- The text of a value. Every array on the way is read while the texts of its elements are. -/
def textOf (b : Borrows) (depth : Nat) (v : Value) : Act String :=
  match depth, v with
  | 0, .array a => b.reading (.array a.index) fun _ => throw (.aborted .cyclic)
  | depth + 1, .array a => b.reading (.array a.index) fun b => do
    let s ← get
    let parts ← (s.array a).toList.mapM fun item => if item.isNullish then return "" else textOf b depth item
    return ",".intercalate parts
  | _, v => Act.read fun s => s.textOf .none 0 v

def text (b : Borrows) (v : Value) : Act String := do b.textOf ((← get).arrays.size + 1) v

def number (b : Borrows) (v : Value) : Act Float :=
  match v with
  | .array _ => do return Number.ofText (← b.text v)
  | v => Act.read fun s => s.numberOf .none v

theorem textOf_eq {held : Option ArrayRef} (h : b.Holds held) (d : Nat) (v : Value) :
    b.textOf d v = Act.read fun s => s.textOf held d v := by
  -- The borrows grow on the way down, but only by readers, so that what is held stays the same.
  induction d generalizing b v with
  | zero =>
      cases v with
      | array a =>
          show (if Cell.array a.index ∈ b.exclusive then _ else _) =
            Act.read fun s => if held == some a then .error .aliased else .error .cyclic
          simp only [h.mem_iff, beq_iff_eq]
          split <;> rfl
      | _ => rfl
  | succ d ih =>
      cases v with
      | array a =>
          have hitem : ∀ item : Value, (if item.isNullish then (return "" : Act String)
              else textOf { b with shared := .array a.index :: b.shared } d item) =
              Act.read fun s => s.itemText held d item := by
            intro item
            rw [ih (h.reading (.array a.index)) item]
            unfold Store.itemText
            split <;> rfl
          have hread : (Act.read fun s => s.textOf held (d + 1) (.array a)) = Act.read fun s =>
              if held == some a then .error .aliased
              else do
                let parts ← (s.array a).toList.mapM (s.itemText held d)
                return ",".intercalate parts := rfl
          rw [hread]
          show (if Cell.array a.index ∈ b.exclusive then _ else do
            let s : Store ← get
            let parts ← (s.array a).toList.mapM fun item : Value => if item.isNullish then (return "" : Act String)
              else textOf { b with shared := .array a.index :: b.shared } d item
            return ",".intercalate parts) = _
          simp only [h.mem_iff, beq_iff_eq, hitem, Act.mapM_read, Act.read_bind_pure, Act.get_bind_read]
          split <;> rfl
      | _ => rfl

theorem text_eq (h : b.Holds none) (v : Value) : b.text v = v.toText := by
  unfold text
  simp only [textOf_eq h, Act.get_bind_read]
  rfl

theorem number_eq {held : Option ArrayRef} (h : b.Holds held) (v : Value) :
    b.number v = Act.read fun s => s.numberOf held v := by
  cases v with
  | array a =>
      show (do return Number.ofText (← b.text (.array a))) = _
      unfold text
      simp only [textOf_eq h, Act.get_bind_read, Act.read_bind_pure]
      rfl
  | _ => rfl

/-! ## Writing a property -/

/-- Writes a property. An array is borrowed while its length is made of the value. -/
def set (b : Borrows) (v : Value) (key : String) (value : Value) : Act Unit :=
  match v with
  | .undefined | .null => do Act.typeFault (.writeOfNothing (← b.text v) key)
  | .object o => b.writing (.object o.index) fun _ => modify fun s => s.modifyObject o (Entries.set key value)
  | .array a => b.writing (.array a.index) fun b => do
    if key = "length" then
      let n ← arrayLength (← b.number value)
      modify fun s => s.modifyArray a (resized · n)
    else
      match arrayIndex? key with
      | none => return
      | some i =>
        if ((← get).array a).size ≤ i then
          if maxArrayLength < i + 1 then Act.rangeFault .arrayLength
          else modify fun s => s.modifyArray a fun items => (resized items i).push value
        else modify fun s => s.modifyArray a fun items => items.setIfInBounds i value
  | _ => return

theorem set_eq (v : Value) (key : String) (value : Value) : free.set v key value = v.set key value := by
  cases v with
  | undefined => exact congrArg (· >>= _) (text_eq free_holds .undefined)
  | null => exact congrArg (· >>= _) (text_eq free_holds .null)
  | array a =>
      -- The conversion happens while the array is being written, so it is the one that may not read it.
      have hholds : Holds ⟨[], [.array a.index]⟩ (some a) := rfl
      have hnumber := number_eq hholds value
      show (free.writing (.array a.index) fun b => if key = "length" then do
          let n ← arrayLength (← b.number value)
          modify fun s => s.modifyArray a (resized · n)
        else _) = _
      rw [free_writing, hnumber]
      rfl
  | _ => rfl

/-! ## Methods -/

/-- A copy of the elements of an array. -/
def elements (b : Borrows) (a : ArrayRef) : Act (List Value) :=
  b.reading (.array a.index) fun _ => do return ((← get).array a).toList

theorem elements_eq (h : b.Holds none) (a : ArrayRef) : b.elements a = (Value.array a).elements := h.reading_eq

/-- What becomes of one element that is flattened: an array is read while its elements are taken apart. -/
def part (b : Borrows) (inner : Borrows → Nat → List Value → Act (List Value)) (bound : Nat) (item : Value) :
    Act (List Value) :=
  match item with
  | .array a => b.reading (.array a.index) fun b =>
    match bound with
    | 0 => throw (.aborted .cyclic)
    | bound + 1 => do inner b bound ((← get).array a).toList
  | other => return [other]

/-- The elements of arrays within arrays. -/
def flattened (b : Borrows) (bound : Nat) : Nat → List Value → Act (List Value)
  | 0, items => return items
  | levels + 1, items => do
    return (← items.mapM (b.part (fun b bound items => flattened b bound levels items) bound)).flatten

def flatten (b : Borrows) (levels : Nat) (items : List Value) : Act (List Value) := do
  b.flattened (← get).arrays.size levels items

/-- What becomes of one element in the evaluator. -/
def flattenedPart (s : Store) (bound levels : Nat) (item : Value) : Except Abort (List Value) :=
  match item with
  | .array a =>
    match bound with
    | 0 => .error .cyclic
    | bound + 1 => FieldScript.flattened s bound levels (s.array a).toList
  | other => .ok [other]

theorem flattened_succ (s : Store) (bound levels : Nat) (items : List Value) :
    FieldScript.flattened s bound (levels + 1) items = do
      return (← items.mapM (flattenedPart s bound levels)).flatten := by
  rw [FieldScript.flattened]
  rfl

theorem flattened_eq (h : b.Holds none) (bound levels : Nat) (items : List Value) :
    b.flattened bound levels items = Act.read fun s => FieldScript.flattened s bound levels items := by
  induction levels generalizing b bound items with
  | zero =>
      unfold flattened FieldScript.flattened
      rfl
  | succ levels ih =>
      have hitem : b.part (fun b bound items => flattened b bound levels items) bound =
          fun item => Act.read fun s => flattenedPart s bound levels item := by
        funext item
        cases item with
        | array a =>
            rw [part, h.reading_eq]
            cases bound with
            | zero => rfl
            | succ bound =>
                simp only [ih (h.reading (.array a.index)), Act.get_bind_read]
                rfl
        | _ => rfl
      simp only [flattened, flattened_succ]
      rw [hitem, Act.mapM_read, Act.read_bind_pure]

theorem flatten_eq (h : b.Holds none) (levels : Nat) (items : List Value) :
    b.flatten levels items = FieldScript.flatten levels items := by
  unfold flatten
  simp only [flattened_eq h, Act.get_bind_read]
  rfl

/-- A position that a value denotes. -/
def position (b : Borrows) (v : Value) (size default : Nat) : Act Nat :=
  match v with
  | .undefined => return default
  | v => do
    let x ← b.number v
    let x := if x.isNaN then 0.0 else Number.trunc x
    if x < 0 then return Number.toCount (Float.ofNat size + x)
    else return min (Number.toCount x) size

theorem position_eq (h : b.Holds none) (v : Value) (size default : Nat) :
    b.position v size default = relativePosition v size default := by
  unfold position
  simp only [number_eq h]
  rfl

/-- The elements of an array, or else the value alone. -/
def parts (b : Borrows) (v : Value) : Act (List Value) :=
  match v with
  | .array a => b.elements a
  | other => return [other]

theorem mapM_parts_eq (h : b.Holds none) (vs : List Value) : vs.mapM b.parts = Act.read fun s =>
    .ok (vs.map fun v =>
      match v with
      | .array a => (s.array a).toList
      | other => [other]) := by
  have hparts : b.parts = fun v => Act.read fun s => .ok (match v with
      | .array a => (s.array a).toList
      | other => [other]) := by
    funext v
    cases v with
    | array a => exact elements_eq h a
    | _ => rfl
  rw [hparts, Act.mapM_read]
  congr 1
  funext s
  exact List.mapM_pure

/-- Calls a method on an array. -/
def arrayMethod (b : Borrows) (m : ArrayMethod) (a : ArrayRef) (args : List Value) : Act Value :=
  let write (f : Array Value → Array Value) (answer : Array Value → Value) : Act Value :=
    b.writing (.array a.index) fun _ => do
      let items := (← get).array a
      modify fun s => s.modifyArray a f
      return answer items
  let read (answer : Array Value → Value) : Act Value := b.reading (.array a.index) fun _ => do
    return answer ((← get).array a)
  let needle := argument args 0
  match m with
  | .push => write (· ++ args.toArray) fun items => .number (Float.ofNat (items.size + args.length))
  | .pop => write (·.pop) fun items => items.back?.getD .undefined
  | .shift => write (·.drop 1) fun items => items[0]?.getD .undefined
  | .unshift => write (args.toArray ++ ·) fun items => .number (Float.ofNat (items.size + args.length))
  | .join => do
    let separator ← match needle with
      | .undefined => pure ","
      | v => b.text v
    b.reading (.array a.index) fun b => do
      let items := (← get).array a
      let parts ← items.toList.mapM fun v => if v.isNullish then pure "" else b.text v
      return .string (separator.intercalate parts)
  | .toString => do return .string (← b.text (.array a))
  | .includes => read fun items => .bool (items.any (·.sameValueZero needle))
  | .indexOf => read fun items => ArrayMethod.position (items.toList.findIdx? (·.strictEquals needle))
  | .lastIndexOf => read fun items => ArrayMethod.position (lastIndex? (·.strictEquals needle) items.toList)
  | .slice => b.reading (.array a.index) fun b => do
    let items := (← get).array a
    let start ← b.position (argument args 0) items.size 0
    let stop ← b.position (argument args 1) items.size items.size
    Change.newArray (items.extract start stop)
  | .concat => do
    let items ← b.elements a
    let more ← args.mapM b.parts
    Change.newArray (items ++ more.flatten).toArray
  | .reverse => write (·.reverse) fun _ => .array a
  | .flat => do
    let levels ← match needle with
      | .undefined => pure 1
      | v => do pure (Number.toCount (← b.number v))
    b.reading (.array a.index) fun b => do
      Change.newArray (← b.flatten levels ((← get).array a).toList).toArray

theorem arrayMethod_eq (m : ArrayMethod) (a : ArrayRef) (args : List Value) :
    free.arrayMethod m a args = m.call a args := by
  cases m with
  | push => rfl
  | pop => rfl
  | shift => rfl
  | unshift => rfl
  | join =>
      unfold arrayMethod ArrayMethod.call
      simp only [free_holds.reading_eq, text_eq (free_holds.reading (.array a.index)), text_eq free_holds]
      cases argument args 0 with
      | undefined => rfl
      | _ => exact Act.read_bind_get _ _
  | toString => exact congrArg (· >>= _) (text_eq free_holds (.array a))
  | includes => rfl
  | indexOf => rfl
  | lastIndexOf => rfl
  | slice =>
      unfold arrayMethod ArrayMethod.call
      simp only [free_holds.reading_eq, position_eq (free_holds.reading (.array a.index))]
  | concat =>
      unfold arrayMethod ArrayMethod.call
      simp only [elements_eq free_holds, mapM_parts_eq free_holds]
      funext s
      refine congrArg (fun items => (liftM (Change.newArray items) : Act Value) s) ?_
      rw [← List.append_toArray, Array.toArray_toList]
      exact congrArg (fun more => s.array a ++ List.toArray more) List.flatMap_def.symm
  | reverse => rfl
  | flat =>
      have hnumber : ∀ v, free.number v = v.toNumber := number_eq free_holds
      unfold arrayMethod ArrayMethod.call
      simp only [free_holds.reading_eq, hnumber, flatten_eq (free_holds.reading (.array a.index))]
      cases argument args 0 with
      | undefined => rfl
      | _ =>
          simp only [pure_bind]
          exact Act.read_bind_get _ _

/-! ## Methods that call functions -/

/-- Whether one element comes after another. -/
def exceeds (b : Borrows) (call : Function → List Value → Comp Value) (comparator before item : Value) : Comp Bool :=
  match comparator with
  | .undefined => do
    let x ← b.text before
    let y ← b.text item
    return y < x
  | other => do
    let answer ← callValue call other [before, item]
    return 0 < (← b.number answer)

/-- Calls a method on an array. The elements are copied before the first call, and nothing more is borrowed during
the calls. -/
def callbackMethod (b : Borrows) (invoke : Borrows → Function → List Value → Comp Value) (m : CallbackMethod)
    (a : ArrayRef) (args : List Value) : Comp Value := do
  let items ← b.elements a
  let numbered := items.zipIdx
  let callback := argument args 0
  let apply (v : Value) (i : Nat) : Comp Value :=
    callValue (invoke b) callback [v, .number (Float.ofNat i), .array a]
  let test (v : Value) (i : Nat) : Comp Bool := do return (← apply v i).isTruthy
  match m with
  | .map => do Change.newArray (← numbered.mapM fun (v, i) => apply v i).toArray
  | .flatMap => do
    let parts ← numbered.mapM fun (v, i) => apply v i
    Change.newArray (← b.flatten 1 parts).toArray
  | .filter => do Change.newArray (← CallbackMethod.keep test numbered).toArray
  | .forEach => do
    let _ ← numbered.mapM fun (v, i) => apply v i
    return .undefined
  | .find => do return ((← CallbackMethod.first? test true numbered).map (·.1)).getD .undefined
  | .findIndex => do return ArrayMethod.position ((← CallbackMethod.first? test true numbered).map (·.2))
  | .any => do return .bool (← CallbackMethod.first? test true numbered).isSome
  | .every => do return .bool (← CallbackMethod.first? test false numbered).isNone
  | .reduce =>
    let step (acc v : Value) (i : Nat) : Comp Value :=
      callValue (invoke b) callback [acc, v, .number (Float.ofNat i), .array a]
    match args[1]?, numbered with
    | some initial, numbered => CallbackMethod.combine step initial numbered
    | none, (v, _) :: rest => CallbackMethod.combine step v rest
    | none, [] => Act.typeFault .emptyReduce
  | .sort => do
    let sorted ← CallbackMethod.sortInto (b.exceeds (invoke b) callback) [] items
    b.writing (.array a.index) fun _ => modify fun s => s.setArray a sorted.toArray
    return .array a

theorem exceeds_eq (h : b.Holds none) : b.exceeds = CallbackMethod.exceeds := by
  have hnumber : ∀ v, b.number v = v.toNumber := number_eq h
  funext call comparator before item
  cases comparator with
  | undefined => simp only [exceeds, CallbackMethod.exceeds, text_eq h]
  | _ => simp only [exceeds, CallbackMethod.exceeds, hnumber]

theorem callbackMethod_eq (invoke : Borrows → Function → List Value → Comp Value) (m : CallbackMethod) (a : ArrayRef)
    (args : List Value) : free.callbackMethod invoke m a args = m.call (invoke free) a args := by
  unfold callbackMethod CallbackMethod.call
  rw [elements_eq free_holds, exceeds_eq free_holds]
  cases m with
  | flatMap => simp only [flatten_eq free_holds]
  | _ => rfl

/-! ## Entries of objects -/

/-- A copy of the entries of a value. -/
def ownEntries (b : Borrows) (v : Value) : Act (List (String × Value)) :=
  match v with
  | .object o => b.reading (.object o.index) fun _ => do return (← get).object o
  | .array a => do return Value.numbered (← b.elements a)
  | v => v.ownEntries

/-- Copies the entries of objects to one of them. They are written one by one. -/
def assign (b : Borrows) (args : List Value) : Act Value := do
  match argument args 0 with
  | .object o =>
    for source in args.drop 1 do
      for (key, v) in ← b.ownEntries source do
        b.writing (.object o.index) fun _ => modify fun s => s.modifyObject o (Entries.set key v)
    return .object o
  | _ => Act.typeFault .assignReceiver

theorem ownEntries_eq (h : b.Holds none) (v : Value) : b.ownEntries v = v.ownEntries := by
  cases v with
  | object o =>
      rw [ownEntries, h.reading_eq]
      rfl
  | array a => exact congrArg (· >>= _) (elements_eq h a)
  | _ => rfl

theorem modifyObject_id (s : Store) (o : ObjectRef) : s.modifyObject o (fun entries => entries) = s := by
  unfold Store.modifyObject
  congr 1
  ext1 <;> simp [Array.getElem_modify]

theorem modifyObject_modifyObject (s : Store) (o : ObjectRef) (f g : List (String × Value) → List (String × Value)) :
    (s.modifyObject o f).modifyObject o g = s.modifyObject o fun entries => g (f entries) := by
  unfold Store.modifyObject
  congr 1
  ext1 <;> simp [Array.getElem_modify]
  split <;> rfl

/-- Entries that are set one by one. -/
theorem forIn_set (o : ObjectRef) (entries : List (String × Value)) :
    (forIn entries PUnit.unit fun e _ => do
      modify fun s => s.modifyObject o (Entries.set e.1 e.2)
      pure (ForInStep.yield PUnit.unit) : Act PUnit) = modify fun s => s.modifyObject o (Entries.setAll · entries) := by
  induction entries with
  | nil =>
      funext s
      exact congrArg (fun t => ((.ok ⟨⟩, t) : Except Halt PUnit × Store)) (modifyObject_id s o).symm
  | cons e more ih =>
      rw [List.forIn_cons]
      funext s
      -- The first entry is set by one step, and the steps behind it start in the store that this one leaves.
      have hmore := congrFun ih (s.modifyObject o (Entries.set e.1 e.2))
      refine hmore.trans ?_
      exact congrArg (fun t => ((.ok ⟨⟩, t) : Except Halt PUnit × Store)) (modifyObject_modifyObject s o _ _)

theorem assign_eq (args : List Value) : free.assign args = Builtin.callPlain .objectAssign args := by
  unfold assign Builtin.callPlain
  simp only [ownEntries_eq free_holds, free_writing]
  cases argument args 0 with
  | object o =>
      simp only [forIn_set]
  | _ => rfl

end Borrows
end FieldScript
