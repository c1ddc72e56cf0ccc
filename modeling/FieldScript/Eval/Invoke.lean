import FieldScript.Eval.Schedule

/-!
# Invocations

One run of a body with the values of its arguments. Whatever the body throws becomes one fault whose
message is the text of the thrown value. Promises that the body did not wait for are settled before
the answer is given, and the answer is converted after that.
-/

namespace FieldScript

/-- The answer of a body: a document, or the message of a fault. -/
abbrev Answer := Except String Json

/-- What came of an invocation. -/
structure Invocation where
  answer : Answer
  /-- The journal with the external calls of this invocation at its end. -/
  journal : Journal

/-- Runs a computation on a store and settles what it leaves over. -/
def Comp.run {α : Type} (job : Job → Comp Value) (fuel : Nat) (x : Comp α) (store : Store) :
    Except Abort (Except Raised α × Store) := do
  let s := scheduler job fuel
  let sched : Sched (Except Raised α) := do
    let result ← s.finish fuel (x store)
    s.drain fuel fuel
    return result
  let (result, world) ← sched.run ⟨store, #[], #[]⟩
  return (result, world.store)

/-- The answer that a result stands for. -/
def Store.answer (s : Store) (result : Except Raised Value) : Except Abort Answer :=
  match result with
  | .ok v => do return .ok (← s.document v)
  | .error r => do return .error (← s.faultMessage r)

/-- The entries of the object of a field's arguments; what is no object counts as one without
entries. -/
def argumentEntries (data : Json) : Change (List (String × Value)) :=
  match data with
  | .object members => Value.ofJsonMembers members
  | _ => return []

/-- Runs a body with values for its arguments. -/
def invoke (fuel : Nat) (capabilities : Capabilities) (api : Api) (args : List String)
    (body : Block) (data : Json) (journal : Journal) : Except Abort Invocation := do
  let (entries, s) := (argumentEntries data).run (Store.empty journal)
  let (object, s) := s.addObject entries
  let setting : Setting := ⟨capabilities, api, args, object⟩
  let c := setting.context fuel
  let (result, s) ← Comp.run c.runJob fuel (c.runBody body) s
  return ⟨← s.answer result, s.journal⟩

/-- The steps that a run is given: as many as anyone could wait for. -/
def defaultFuel : Nat := Nat.pow 2 40

end FieldScript
