/-!
# Local names

A stack of scopes, the innermost first. A local name shadows capabilities and arguments of the same
name. Of every name it is also known whether it holds an asynchronous function, so that calls of it
are awaited.
-/

namespace FieldScript

/-- Scopes of local names, each name with the mark whether it holds an asynchronous function. -/
structure Locals where
  scopes : List (List (String × Bool))
deriving DecidableEq, Repr, Inhabited

namespace Locals

/-- No scope at all. -/
def empty : Locals := ⟨[]⟩

def push (l : Locals) : Locals := ⟨[] :: l.scopes⟩

def pop (l : Locals) : Locals := ⟨l.scopes.tail⟩

/-- Binds a name in the innermost scope, which is made if there is none. -/
def bind (l : Locals) (name : String) (asyncFunction : Bool) : Locals :=
  match l.scopes with
  | [] => ⟨[[(name, asyncFunction)]]⟩
  | scope :: outer => ⟨((name, asyncFunction) :: scope) :: outer⟩

def declare (l : Locals) (name : String) : Locals := l.bind name false

def declareAll (l : Locals) (names : List String) : Locals := names.foldl declare l

def declareAsync (l : Locals) (name : String) : Locals := l.bind name true

/-- The mark of the innermost binding of a name. -/
def find? (l : Locals) (name : String) : Option Bool :=
  l.scopes.findSome? (·.lookup name)

def contains (l : Locals) (name : String) : Bool := (l.find? name).isSome

/-- Whether the innermost binding of a name holds an asynchronous function. -/
def isAsyncFunction (l : Locals) (name : String) : Bool := (l.find? name).getD false

/-- A new binding is the one that is found. -/
theorem find?_bind (l : Locals) (name key : String) (mark : Bool) :
    (l.bind name mark).find? key = if key = name then some mark else l.find? key := by
  obtain ⟨scopes⟩ := l
  cases scopes with
  | nil => grind [bind, find?]
  | cons scope outer => grind [bind, find?]

@[simp] theorem pop_push (l : Locals) : l.push.pop = l := rfl

end Locals
end FieldScript
