import FieldScript.Eval.Invoke
import FieldScript.Module

/-!
# Services

A service is a module with the external functions behind its capabilities. It answers requests for
fields. Adapters name a field of a module and find its service when they are called.
-/

namespace FieldScript

/-- Why a request has no answer. -/
inductive ServiceFault where
  /-- A type whose fields carry no bodies. -/
  | invalidType (name : String)
  | unknownField (type field : String)
  | unknownService (module : String)
  /-- The body failed. -/
  | failed (message : String)
deriving DecidableEq, Repr

namespace ServiceFault

/-- The name of a fault's kind. -/
def kind : ServiceFault → String
  | .invalidType _ => "InvalidType"
  | .unknownField _ _ => "UnknownField"
  | .unknownService _ => "UnknownService"
  | .failed _ => "RuntimeFault"

/-- The wording of a fault. -/
def message : ServiceFault → String
  | .invalidType name =>
    "Invalid type used. Expected 'Subscription', 'Query', or 'Mutation', but received '" ++ name ++
      "'."
  | .unknownField type field => "no resolver for " ++ type ++ "." ++ field
  | .unknownService module => "no service registered for module '" ++ module ++ "'"
  | .failed message => message

end ServiceFault

/-- A module with its external functions. -/
structure Service where
  module : CompiledModule
  api : Api

/-- What a request came to. -/
structure Reply where
  answer : Except ServiceFault Json
  journal : Journal

/-- Answers a request for a field. -/
def Service.dispatch (s : Service) (fuel : Nat) (type field : String) (data : Json)
    (journal : Journal) : Except Abort Reply :=
  match s.module.unit? type field with
  | none => .ok ⟨.error (.unknownField type field), journal⟩
  | some u => do
    let i ← invoke fuel s.module.capabilities s.api u.args u.block data journal
    return ⟨i.answer.mapError .failed, i.journal⟩

/-- Services by the names of their modules. -/
abbrev Services := List (String × Service)

/-- Adds a service, in place of one of the same name. -/
def Services.register (all : Services) (s : Service) : Services :=
  Entries.set s.module.name s all

/-! ## Adapters -/

/-- A field of a module. -/
structure FieldAdapter where
  module : String
  container : Container
  field : String
deriving DecidableEq, Repr

/-- Calls the service that is registered for a field's module. -/
def FieldAdapter.call (a : FieldAdapter) (fuel : Nat) (services : Services) (data : Json)
    (journal : Journal) : Except Abort Reply :=
  match services.lookup a.module with
  | none => .ok ⟨.error (.unknownService a.module), journal⟩
  | some s => s.dispatch fuel a.container.name a.field data journal

/-- How a field is asked for. -/
inductive AdapterKind where
  | resolve
  | subscribe
deriving DecidableEq, Repr

def AdapterKind.name : AdapterKind → String
  | .resolve => "resolve"
  | .subscribe => "subscribe"

/-- Only the fields of subscriptions are subscribed to. -/
def Container.adapterKind : Container → AdapterKind
  | .subscription => .subscribe
  | _ => .resolve

def FieldAdapter.kind (a : FieldAdapter) : AdapterKind := a.container.adapterKind

/-- The adapter of a field of a type. -/
def FieldAdapter.ofNames (module type field : String) : Except ServiceFault FieldAdapter :=
  match Container.ofName? type with
  | some container => .ok ⟨module, container, field⟩
  | none => .error (.invalidType type)

/-- The adapters of a module's fields, by type. -/
def CompiledModule.adapters (m : CompiledModule) : List (Container × List FieldAdapter) :=
  (Container.all.map fun c =>
    (c, (m.units.filter (·.container == c)).map fun u => ⟨m.name, c, u.field⟩)).filter
      fun (_, fields) => !fields.isEmpty

end FieldScript
