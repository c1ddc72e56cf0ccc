import FieldScript.Json.Basic
import FieldScript.Capability
import FieldScript.Text.Quoted

/-!
# External functions

The functions behind the capabilities of a body. A function answers by its arguments and by how often
it was called before. Its answer is fixed when it is called; an asynchronous function hands it over
only after it has been asked a number of times in vain.

Every call is written into a journal, with the moments at which an asynchronous answer is first asked
for and at which it is handed over.
-/

namespace FieldScript

/-- The answer of an external function: a result or a rejection, and how many times it is asked for
in vain before. -/
structure Response where
  result : Except Json Json
  delay : Nat

/-- An external function. -/
structure HostFunction where
  isAsync : Bool
  /-- The answer, by the number of earlier calls and the arguments. -/
  respond : Nat → List Json → Response

/-- External functions by name, in ascending order. -/
structure Api where
  /-- Tells functions of this interface from those of others that share a journal. -/
  owner : Nat
  functions : List (String × HostFunction)

namespace Api

/-- Puts a function at its place; a name that is there already gets the new function. -/
def insertFunction (name : String) (f : HostFunction) :
    List (String × HostFunction) → List (String × HostFunction)
  | [] => [(name, f)]
  | (other, g) :: rest =>
    if name = other then (name, f) :: rest
    else if name < other then (name, f) :: (other, g) :: rest
    else (other, g) :: insertFunction name f rest

def ofList (owner : Nat) (functions : List (String × HostFunction)) : Api :=
  ⟨owner, functions.foldl (fun sorted (name, f) => insertFunction name f sorted) []⟩

def get? (api : Api) (name : String) : Option HostFunction := api.functions.lookup name

def names (api : Api) : List String := api.functions.map (·.1)

/-- The names of the functions in braces. -/
def describe (api : Api) : String :=
  "\x7b" ++ ", ".intercalate (api.names.map Text.quote) ++ "\x7d"

/-- The capabilities that no function stands behind. -/
def missing (api : Api) (capabilities : Capabilities) : List String :=
  capabilities.names.filter fun name => (api.get? name).isNone

end Api

/-- What happens to external functions. -/
inductive Event where
  | call (id : Nat) (owner : Nat) (name : String) (args : List Json)
  | start (id : Nat)
  | done (id : Nat)

/-- Everything that happened to external functions, in order. -/
structure Journal where
  events : Array Event
deriving Inhabited

namespace Journal

def empty : Journal := ⟨#[]⟩

def record (j : Journal) (e : Event) : Journal := ⟨j.events.push e⟩

/-- How many calls were made. -/
def calls (j : Journal) : Nat :=
  j.events.foldl (fun n e => match e with
    | .call .. => n + 1
    | _ => n) 0

/-- How many calls of one function were made. -/
def callsOf (j : Journal) (owner : Nat) (name : String) : Nat :=
  j.events.foldl (fun n e => match e with
    | .call _ o m _ => if o = owner && m = name then n + 1 else n
    | _ => n) 0

end Journal
end FieldScript
