/-!
# Names in scope

The names that a body may refer to: those of the field, and those that inner scopes declare. Within a
scope names are kept in the order of their declaration.
-/

namespace FieldScript

/-- The scope of the field, which is never left, and the inner scopes, innermost first. -/
structure NameEnv where
  field : List String
  inner : List (List String)
deriving DecidableEq, Repr

namespace NameEnv

/-- Adds a name to a scope, unless it is there. -/
def addTo (scope : List String) (name : String) : List String :=
  if scope.contains name then scope else scope ++ [name]

/-- An environment with names of the field. -/
def ofList (names : List String) : NameEnv := ⟨names.foldl addTo [], []⟩

def push (e : NameEnv) : NameEnv := { e with inner := [] :: e.inner }

/-- Leaves the innermost scope, unless it is that of the field. -/
def pop (e : NameEnv) : NameEnv := { e with inner := e.inner.tail }

/-- Declares a name in the innermost scope. -/
def declare (e : NameEnv) (name : String) : NameEnv :=
  match e.inner with
  | [] => { e with field := addTo e.field name }
  | scope :: outer => { e with inner := addTo scope name :: outer }

def declareAll (e : NameEnv) (names : List String) : NameEnv := names.foldl declare e

/-- Whether some scope has a name. -/
def isBound (e : NameEnv) (name : String) : Bool :=
  e.field.contains name || e.inner.any (·.contains name)

/-- All names without repetition, from the outside to the inside. -/
def visible (e : NameEnv) : List String :=
  (e.field ++ e.inner.reverse.flatten).foldl addTo []

@[simp] theorem pop_push (e : NameEnv) : e.push.pop = e := rfl

theorem contains_addTo (scope : List String) (name key : String) :
    (addTo scope name).contains key = (key == name || scope.contains key) := by
  grind [addTo]

/-- A declaration binds its name and no other. -/
theorem isBound_declare (e : NameEnv) (name key : String) :
    (e.declare name).isBound key = (key == name || e.isBound key) := by
  obtain ⟨field, inner⟩ := e
  cases inner with
  | nil => grind [declare, isBound, contains_addTo]
  | cons scope outer => grind [declare, isBound, contains_addTo]

end NameEnv
end FieldScript
