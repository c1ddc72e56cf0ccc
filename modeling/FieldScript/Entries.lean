/-!
# Named entries

Association lists that keep the order in which names first came: setting a name that is there keeps
its place. Objects, documents and the frames of scopes are kept this way.
-/

namespace FieldScript.Entries

variable {α : Type}

/-- Sets the value of a name. A new name goes to the end. -/
def set (name : String) (value : α) : List (String × α) → List (String × α)
  | [] => [(name, value)]
  | (key, old) :: rest =>
    if key = name then (key, value) :: rest else (key, old) :: set name value rest

/-- Removes a name; the others keep their order. -/
def erase (name : String) : List (String × α) → List (String × α)
  | [] => []
  | (key, old) :: rest => if key = name then rest else (key, old) :: erase name rest

/-- Sets names one after another. -/
def setAll (entries more : List (String × α)) : List (String × α) :=
  more.foldl (fun entries (name, value) => set name value entries) entries

theorem setAll_append (entries more rest : List (String × α)) :
    setAll entries (more ++ rest) = setAll (setAll entries more) rest := List.foldl_append ..

attribute [local simp, local grind =] set

/-- What was set is what is found. -/
theorem lookup_set (name key : String) (value : α) (entries : List (String × α)) :
    (set name value entries).lookup key = if key = name then some value else entries.lookup key := by
  induction entries with
  | nil => grind
  | cons head rest ih =>
    obtain ⟨other, old⟩ := head
    grind

/-- Setting a name never moves the others. -/
theorem keys_set (name : String) (value : α) (entries : List (String × α)) :
    (set name value entries).map (·.1) =
      if name ∈ entries.map (·.1) then entries.map (·.1) else entries.map (·.1) ++ [name] := by
  induction entries with
  | nil => simp
  | cons head rest ih =>
    obtain ⟨other, old⟩ := head
    by_cases h : other = name <;> grind

/-- Setting a name to the value that it has changes nothing. -/
theorem set_of_lookup {name : String} {value : α} {entries : List (String × α)} (h : entries.lookup name = some value) :
    set name value entries = entries := by
  induction entries with
  | nil => cases h
  | cons head rest ih =>
    obtain ⟨other, old⟩ := head
    grind

/-- Setting a name commutes with a change of all values. -/
theorem map_set {β : Type} (f : α → β) (name : String) (value : α) (entries : List (String × α)) :
    (set name value entries).map (fun (key, a) => (key, f a)) =
      set name (f value) (entries.map fun (key, a) => (key, f a)) := by
  induction entries with
  | nil => rfl
  | cons head rest ih =>
    obtain ⟨other, old⟩ := head
    by_cases h : other = name <;> simp [h, ih]

end FieldScript.Entries
