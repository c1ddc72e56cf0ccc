import FieldScript.Proofs.Eval.Bodies

/-!
# Documents that go through the store

A document becomes a value with cells of its own, and the document of that value is the first one again, apart from
its numbers, which are written as numbers of the store are. Nothing that only adds cells changes this.

* `Json.stored`: what a document comes back as.
* `Store.Represents`: a value whose document is known in the store at hand and in every store with more cells.
* `Value.ofJson_represents`: the value of a document represents it.
-/

namespace FieldScript

namespace Json

mutual

/-- A document as it comes back from the store. -/
def stored : Json → Json
  | .null => .null
  | .bool b => .bool b
  | .int n => .ofFloat (Float.ofInt n)
  | .float x => .ofFloat x
  | .string t => .string t
  | .array items => .array (storedItems items)
  | .object members => .object (storedMembers members)

def storedItems : List Json → List Json
  | [] => []
  | j :: rest => j.stored :: storedItems rest

def storedMembers : List (String × Json) → List (String × Json)
  | [] => []
  | (name, j) :: rest => (name, j.stored) :: storedMembers rest

end

end Json

namespace Store

/-- How many arrays and objects a store has. -/
def cells (s : Store) : Nat := s.arrays.size + s.objects.size

theorem Extends.cells_le {s t : Store} (h : s.Extends t) : s.cells ≤ t.cells := by
  have harrays : s.arrays.size ≤ t.arrays.size := by
    by_contra hlt
    exact absurd (h.within (.array t.arrays.size) (Nat.lt_of_not_le hlt)) (Nat.lt_irrefl _)
  have hobjects : s.objects.size ≤ t.objects.size := by
    by_contra hlt
    exact absurd (h.within (.object t.objects.size) (Nat.lt_of_not_le hlt)) (Nat.lt_irrefl _)
  exact Nat.add_le_add harrays hobjects

theorem cells_addArray (s : Store) (items : Array Value) : (s.addArray items).2.cells = s.cells + 1 := by
  simp only [cells, addArray, Array.size_push]
  omega

theorem cells_addObject (s : Store) (entries : List (String × Value)) :
    (s.addObject entries).2.cells = s.cells + 1 := by
  simp only [cells, addObject, Array.size_push]
  omega

/-- The document of a value is known here and wherever there are more cells, and it is no deeper than a bound. -/
def Shows (s : Store) (depth : Nat) (v : Value) (j : Json) : Prop :=
  ∀ t, s.Extends t → t.documentOf? depth v = .ok (some j)

/-- The document of a value is known here and wherever there are more cells. -/
def Represents (s : Store) (v : Value) (j : Json) : Prop := s.Shows s.cells v j

variable {s t : Store} {v : Value} {j : Json} {d e : Nat}

theorem Shows.mono (h : s.Shows d v j) (hle : d ≤ e) : s.Shows e v j :=
  fun u hu => documentOf?_mono hle (h u hu)

theorem Shows.extend (h : s.Shows d v j) (hext : s.Extends t) : t.Shows d v j :=
  fun u hu => h u (hext.trans hu)

theorem Represents.extend (h : s.Represents v j) (hext : s.Extends t) : t.Represents v j :=
  (Shows.extend h hext).mono hext.cells_le

theorem Represents.document? (h : s.Represents v j) : s.document? v = .ok (some j) :=
  documentOf?_succ (h s (.refl s))

theorem Represents.document (h : s.Represents v j) : s.document v = .ok j := by
  unfold Store.document
  rw [h.document?]
  rfl

theorem mapM_of_forall₂ {ε α γ : Type} {f : α → Except ε γ} {xs : List α} {zs : List γ}
    (h : List.Forall₂ (fun x z => f x = .ok z) xs zs) : xs.mapM f = .ok zs := by
  induction h with
  | nil => rfl
  | cons hx _ ih => exact mapM_cons_ok.2 ⟨_, _, hx, ih, rfl⟩

/-- A new array of values whose documents are known. -/
theorem Shows.array {vs : List Value} {js : List Json} (h : List.Forall₂ (s.Shows d) vs js) :
    (s.addArray vs.toArray).2.Shows (d + 1) (.array (s.addArray vs.toArray).1) (.array js) := by
  intro t ht
  have helements : t.array (s.addArray vs.toArray).1 = vs.toArray := by
    unfold Store.array
    rw [show (s.addArray vs.toArray).1.index = s.arrays.size from rfl, ht.arrays (getElem?_addArray vs.toArray)]
    rfl
  refine documentOf?_array.2 ⟨js, ?_, rfl⟩
  rw [helements, List.toList_toArray]
  refine mapM_of_forall₂ (h.imp fun v j hv => ?_)
  unfold itemDocument
  rw [hv t ((extends_addArray vs.toArray).trans ht)]
  rfl

theorem Represents.array {vs : List Value} {js : List Json} (h : List.Forall₂ s.Represents vs js) :
    (s.addArray vs.toArray).2.Represents (.array (s.addArray vs.toArray).1) (.array js) := by
  unfold Represents
  rw [cells_addArray]
  exact Shows.array h

/-- A new object with entries whose documents are known. -/
theorem Shows.object {es : List (String × Value)} {js : List (String × Json)}
    (h : List.Forall₂ (fun e m => e.1 = m.1 ∧ s.Shows d e.2 m.2) es js) :
    (s.addObject es).2.Shows (d + 1) (.object (s.addObject es).1) (.object js) := by
  intro t ht
  have hentries : t.object (s.addObject es).1 = es := by
    unfold Store.object
    rw [show (s.addObject es).1.index = s.objects.size from rfl, ht.objects (getElem?_addObject es)]
    rfl
  refine documentOf?_object.2 ⟨js.map some, ?_, by simp⟩
  rw [hentries]
  refine mapM_of_forall₂ (List.forall₂_map_right_iff.2 (h.imp fun e m he => ?_))
  unfold memberDocument
  rw [he.2 t ((extends_addObject es).trans ht), he.1]
  rfl

end Store

namespace Value

mutual

/-- The value of a document, which has no more levels than new cells. -/
theorem ofJson_shows (j : Json) (s : Store) :
    ((ofJson j).run s).2.Shows (((ofJson j).run s).2.cells - s.cells) ((ofJson j).run s).1 j.stored := by
  have hatom : ∀ (v : Value) (j : Json), (∀ t : Store, t.documentOf? 0 v = .ok (some j)) →
      s.Shows (s.cells - s.cells) v j := by
    intro v j h
    rw [Nat.sub_self]
    exact fun t _ => h t
  cases j with
  | null => exact hatom .null .null fun _ => rfl
  | bool b => exact hatom (.bool b) (.bool b) fun _ => rfl
  | int n => exact hatom (.number (Float.ofInt n)) (.ofFloat (Float.ofInt n)) fun _ => rfl
  | float x => exact hatom (.number x) (.ofFloat x) fun _ => rfl
  | string t => exact hatom (.string t) (.string t) fun _ => rfl
  | array items =>
      have hle := (ofJsonItems_grows items s).1.extended.cells_le
      have hcells : (((ofJsonItems items).run s).2.addArray ((ofJsonItems items).run s).1.toArray).2.cells - s.cells =
          ((ofJsonItems items).run s).2.cells - s.cells + 1 := by
        rw [Store.cells_addArray]
        omega
      rw [ofJson_run_array, Json.stored, hcells]
      exact Store.Shows.array (ofJsonItems_shows items s)
  | object members =>
      have hle := (ofJsonMembers_grows members s).1.extended.cells_le
      have hcells : (((ofJsonMembers members).run s).2.addObject ((ofJsonMembers members).run s).1).2.cells - s.cells =
          ((ofJsonMembers members).run s).2.cells - s.cells + 1 := by
        rw [Store.cells_addObject]
        omega
      rw [ofJson_run_object, Json.stored, hcells]
      exact Store.Shows.object (ofJsonMembers_shows members s)

theorem ofJsonItems_shows (js : List Json) (s : Store) :
    List.Forall₂ (((ofJsonItems js).run s).2.Shows (((ofJsonItems js).run s).2.cells - s.cells))
      ((ofJsonItems js).run s).1 (Json.storedItems js) := by
  cases js with
  | nil => exact .nil
  | cons j rest =>
      have hfirst := (ofJson_grows j s).1.extended.cells_le
      have hrest := (ofJsonItems_grows rest ((ofJson j).run s).2).1.extended
      have hle := hrest.cells_le
      rw [ofJsonItems_run_cons, Json.storedItems]
      dsimp only
      refine .cons (((ofJson_shows j s).extend hrest).mono (by omega)) ?_
      exact (ofJsonItems_shows rest ((ofJson j).run s).2).imp fun _ _ h => h.mono (by omega)

theorem ofJsonMembers_shows (js : List (String × Json)) (s : Store) :
    List.Forall₂ (fun e m => e.1 = m.1 ∧
      ((ofJsonMembers js).run s).2.Shows (((ofJsonMembers js).run s).2.cells - s.cells) e.2 m.2)
      ((ofJsonMembers js).run s).1 (Json.storedMembers js) := by
  match js with
  | [] => exact .nil
  | (name, j) :: rest =>
      have hfirst := (ofJson_grows j s).1.extended.cells_le
      have hrest := (ofJsonMembers_grows rest ((ofJson j).run s).2).1.extended
      have hle := hrest.cells_le
      rw [ofJsonMembers_run_cons, Json.storedMembers]
      dsimp only
      refine .cons ⟨rfl, ((ofJson_shows j s).extend hrest).mono (by omega)⟩ ?_
      exact (ofJsonMembers_shows rest ((ofJson j).run s).2).imp fun _ _ h => ⟨h.1, h.2.mono (by omega)⟩

end

/-- The value of a member becomes what it is somewhere on the way. -/
theorem ofJsonMembers_lookup {name : String} {j : Json} (members : List (String × Json)) (s : Store)
    (h : members.lookup name = some j) :
    ∃ t, ((ofJsonMembers members).run s).1.lookup name = some ((ofJson j).run t).1 ∧
      ((ofJson j).run t).2.Extends ((ofJsonMembers members).run s).2 := by
  induction members generalizing s with
  | nil => cases h
  | cons member rest ih =>
      obtain ⟨key, first⟩ := member
      rw [ofJsonMembers_run_cons]
      rw [List.lookup_cons] at h ⊢
      dsimp only
      cases hkey : name == key with
      | false =>
          rw [hkey] at h
          exact ih ((ofJson first).run s).2 h
      | true =>
          rw [hkey] at h
          cases h
          exact ⟨s, rfl, (ofJsonMembers_grows rest ((ofJson j).run s).2).1.extended⟩

end Value

end FieldScript
