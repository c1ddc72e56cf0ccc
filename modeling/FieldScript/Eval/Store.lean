import FieldScript.Entries
import FieldScript.Eval.Fault
import FieldScript.Host.Api
import FieldScript.Syntax.Basic

/-!
# The store of a running body

Arrays, objects, functions and the frames of scopes live in cells, and references are the numbers of
cells. A scope is the list of its frames from the inside to the outside, so a function that outlives
its block keeps the frames it saw.

An action reads and changes the store and may halt. It never waits.
-/

namespace FieldScript

/-- A reference to a frame. -/
structure FrameRef where
  index : Nat
deriving DecidableEq, Repr

/-- A variable. -/
structure Binding where
  value : Value
  constant : Bool
deriving Repr, Inhabited

/-- The frames in sight, innermost first. -/
abbrev Scope := List FrameRef

/-- An arrow function with the scope it was written in. -/
structure Closure where
  params : List Pattern
  body : ArrowBody
  isAsync : Bool
  scope : Scope

/-- The cells of a run, and the journal of external calls. -/
structure Store where
  arrays : Array (Array Value)
  objects : Array (List (String × Value))
  closures : Array Closure
  frames : Array (List (String × Binding))
  journal : Journal
deriving Inhabited

/-- A store without cells. -/
def Store.empty (journal : Journal) : Store := ⟨#[], #[], #[], #[], journal⟩

/-- A computation on the store. -/
abbrev Act := ExceptT Halt (StateM Store)

namespace Act

def raise {α : Type} (r : Raised) : Act α := throw (.raised r)

def typeFault {α : Type} (fault : TypeFault) : Act α := raise (.type fault)

def rangeFault {α : Type} (fault : RangeFault) : Act α := raise (.range fault)

/-- What can be read off the store, unless the run has no answer. -/
def read {α : Type} (f : Store → Except Abort α) : Act α := do
  match f (← get) with
  | .ok a => return a
  | .error abort => throw (.aborted abort)

end Act

/-! ## Cells -/

namespace Store

/-- The elements of an array. -/
def array (s : Store) (a : ArrayRef) : Array Value := s.arrays[a.index]?.getD #[]

/-- The entries of an object. -/
def object (s : Store) (o : ObjectRef) : List (String × Value) := s.objects[o.index]?.getD []

/-- The variables of a frame. -/
def frame (s : Store) (f : FrameRef) : List (String × Binding) := s.frames[f.index]?.getD []

def closure? (s : Store) (c : ClosureRef) : Option Closure := s.closures[c.index]?

/-- Puts other elements into an array. -/
def setArray (s : Store) (a : ArrayRef) (items : Array Value) : Store :=
  { s with arrays := s.arrays.setIfInBounds a.index items }

/-- Changes the elements of an array. -/
def modifyArray (s : Store) (a : ArrayRef) (f : Array Value → Array Value) : Store :=
  { s with arrays := s.arrays.modify a.index f }

/-- Changes the entries of an object. -/
def modifyObject (s : Store) (o : ObjectRef)
    (f : List (String × Value) → List (String × Value)) : Store :=
  { s with objects := s.objects.modify o.index f }

/-- Changes the variables of a frame. -/
def modifyFrame (s : Store) (ref : FrameRef)
    (f : List (String × Binding) → List (String × Binding)) : Store :=
  { s with frames := s.frames.modify ref.index f }

/-- Adds an array. -/
def addArray (s : Store) (items : Array Value) : ArrayRef × Store :=
  (⟨s.arrays.size⟩, { s with arrays := s.arrays.push items })

/-- Adds an object. -/
def addObject (s : Store) (entries : List (String × Value)) : ObjectRef × Store :=
  (⟨s.objects.size⟩, { s with objects := s.objects.push entries })

/-- Adds a function. -/
def addClosure (s : Store) (c : Closure) : ClosureRef × Store :=
  (⟨s.closures.size⟩, { s with closures := s.closures.push c })

/-- Adds an empty frame. -/
def addFrame (s : Store) : FrameRef × Store :=
  (⟨s.frames.size⟩, { s with frames := s.frames.push [] })

/-- What goes into a new array comes out of it. -/
theorem array_addArray (s : Store) (items : Array Value) :
    (s.addArray items).2.array (s.addArray items).1 = items := by
  simp [addArray, array]

/-- What goes into a new object comes out of it. -/
theorem object_addObject (s : Store) (entries : List (String × Value)) :
    (s.addObject entries).2.object (s.addObject entries).1 = entries := by
  simp [addObject, object]

theorem frame_modifyFrame_self {s : Store} {f : FrameRef} (g : List (String × Binding) → List (String × Binding))
    (h : f.index < s.frames.size) : (s.modifyFrame f g).frame f = g (s.frame f) := by
  simp [frame, modifyFrame, h, Array.getElem_modify_self]

theorem frame_modifyFrame_ne {s : Store} {f f' : FrameRef}
    (g : List (String × Binding) → List (String × Binding)) (h : f' ≠ f) :
    (s.modifyFrame f g).frame f' = s.frame f' := by
  have hne : f.index ≠ f'.index := fun heq => h (by cases f; cases f'; simp_all)
  simp [frame, modifyFrame, Array.getElem?_modify, hne]

/-- A new frame is empty. -/
theorem frame_addFrame_self (s : Store) : s.addFrame.2.frame s.addFrame.1 = [] := by
  simp [addFrame, frame]

/-- The other frames stay as they are when one is added. -/
theorem frame_addFrame_ne {s : Store} {f : FrameRef} (h : f.index < s.frames.size) :
    s.addFrame.2.frame f = s.frame f := by
  simp [addFrame, frame, Array.getElem?_push, Nat.ne_of_lt h]

end Store

/-- A change of the store that cannot fail. -/
abbrev Change := StateM Store

namespace Change

/-- A new array. -/
def newArray (items : Array Value) : Change Value := do
  return .array (← modifyGet fun s => s.addArray items)

/-- A new object. -/
def newObject (entries : List (String × Value)) : Change Value := do
  return .object (← modifyGet fun s => s.addObject entries)

/-- The value that describes an error. -/
def newError (name message : String) : Change Value :=
  newObject [("name", .string name), ("message", .string message)]

/-- The value of what was raised, as a handler sees it. -/
def raisedValue (r : Raised) : Change Value :=
  match r with
  | .thrown v => return v
  | .type fault => newError "TypeError" fault.message
  | .unbound name => newError "ReferenceError" (name ++ " is not defined")
  | .range fault => newError "RangeError" fault.message

end Change

/-! ## Scopes -/

namespace Scope

/-- A scope with a new frame inside another. -/
def child (scope : Scope) : Act Scope := do
  return (← modifyGet fun s => s.addFrame) :: scope

/-- Declares a variable in the innermost frame, in place of one of the same name. -/
def declare (scope : Scope) (name : String) (value : Value) (constant : Bool) : Act Unit :=
  match scope with
  | [] => return
  | frame :: _ => modify fun s => s.modifyFrame frame (Entries.set name ⟨value, constant⟩)

/-- The variable of a name, from the inside to the outside. -/
def find? (s : Store) (name : String) : Scope → Option Binding
  | [] => none
  | frame :: rest =>
    match (s.frame frame).lookup name with
    | some b => some b
    | none => find? s name rest

/-- The value of a variable. -/
def lookup? (scope : Scope) (name : String) : Act (Option Value) := do
  return (find? (← get) name scope).map (·.value)

/-- Changes the innermost variable of a name; false if there is none. -/
def assign (scope : Scope) (name : String) (value : Value) : Act Bool :=
  match scope with
  | [] => return false
  | frame :: rest => do
    match ((← get).frame frame).lookup name with
    | some b =>
      if b.constant then Act.typeFault .constantAssigned
      else
        modify fun s => s.modifyFrame frame (Entries.set name ⟨value, false⟩)
        return true
    | none => assign rest name value

end Scope
end FieldScript
