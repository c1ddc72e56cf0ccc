/-!
# Capabilities

The external functions that a field body may call, each with the mark whether calling it starts an
asynchronous computation. Names are kept in ascending order, so that everything derived from a
capability set is the same for every order of registration.
-/

namespace FieldScript

/-- Names of external functions in ascending order, with their asynchrony. -/
structure Capabilities where
  entries : List (String × Bool)
deriving DecidableEq, Repr, Inhabited

namespace Capabilities

def empty : Capabilities := ⟨[]⟩

/-- Puts an entry at its place; a name that is there already gets the new mark. -/
def insertEntry (name : String) (async : Bool) : List (String × Bool) → List (String × Bool)
  | [] => [(name, async)]
  | (other, mark) :: rest =>
    if name = other then (name, async) :: rest
    else if name < other then (name, async) :: (other, mark) :: rest
    else (other, mark) :: insertEntry name async rest

def insert (c : Capabilities) (name : String) (async : Bool) : Capabilities :=
  ⟨insertEntry name async c.entries⟩

def ofList (entries : List (String × Bool)) : Capabilities :=
  entries.foldl (fun c (name, async) => c.insert name async) empty

def contains (c : Capabilities) (name : String) : Bool :=
  c.entries.any (·.1 == name)

/-- Only a registered name can be asynchronous. -/
def isAsync (c : Capabilities) (name : String) : Bool :=
  (c.entries.lookup name).getD false

def names (c : Capabilities) : List String := c.entries.map (·.1)

def asyncNames (c : Capabilities) : List String :=
  (c.entries.filter (·.2)).map (·.1)

def size (c : Capabilities) : Nat := c.entries.length

def isEmpty (c : Capabilities) : Bool := c.entries.isEmpty

theorem lookup_insertEntry (name key : String) (async : Bool) (entries : List (String × Bool)) :
    (insertEntry name async entries).lookup key =
      if key = name then some async else entries.lookup key := by
  induction entries with
  | nil => grind [insertEntry]
  | cons head rest ih =>
    obtain ⟨other, mark⟩ := head
    grind [insertEntry]

/-- A registration is what a later look-up sees. -/
theorem isAsync_insert (c : Capabilities) (name key : String) (async : Bool) :
    (c.insert name async).isAsync key = if key = name then async else c.isAsync key := by
  by_cases h : key = name <;> simp [isAsync, insert, lookup_insertEntry, h]

theorem isAsync_of_not_contains {c : Capabilities} {name : String} (h : c.contains name = false) :
    c.isAsync name = false := by
  unfold isAsync
  rw [List.lookup_eq_none_iff.2 fun e he => ?_, Option.getD_none]
  have hne := (List.any_eq_false.1 h) e he
  exact bne_iff_ne.2 fun heq => hne (beq_iff_eq.2 heq.symm)

end Capabilities
end FieldScript
