import Mathlib.Data.List.Forall2
import Mathlib.Order.Basic
import FieldScript.Eval.Convert

/-!
# Stores that are alike

Two runs of a body that do the same things in another order number their arrays and objects
differently. A pairing says which cells of the two stores correspond.

* `Value.Like`: two values that are the same but for the numbers of cells.
* `Heap`: paired cells have contents that are alike. Cells without a partner are free, so one run may
  be ahead of the other.
* `Heap.addArray`, `Heap.addObject`: a new cell gets a partner.
* `Heap.within`: of the pairs with cells of an earlier store, one can speak as of that store.
-/

namespace FieldScript

/-- An array or an object. -/
inductive Cell where
  | array (i : Nat)
  | object (i : Nat)
deriving DecidableEq

/-- Which cells of two stores correspond. -/
abbrev Pairing := Cell → Cell → Prop

/-! ## Values -/

/-- The cell that a value refers to. -/
def Value.cell? : Value → Option Cell
  | .array a => some (.array a.index)
  | .object o => some (.object o.index)
  | .function (.method (.array a _)) => some (.array a.index)
  | .function (.method (.callback a _)) => some (.array a.index)
  | _ => none

/-- Whether a value refers to a promise. -/
def Value.ofPromise : Value → Bool
  | .promise _ => true
  | .function (.method (.promise _ _)) => true
  | _ => false

/-- Values that are the same but for the numbers of cells. -/
inductive Value.Like (β : Pairing) : Value → Value → Prop where
  | atom (v : Value) (hcell : v.cell? = none) (hpromise : v.ofPromise = false) : Like β v v
  | array {a b : ArrayRef} (h : β (.array a.index) (.array b.index)) : Like β (.array a) (.array b)
  | object {a b : ObjectRef} (h : β (.object a.index) (.object b.index)) : Like β (.object a) (.object b)
  | method {a b : ArrayRef} (m : ArrayMethod) (h : β (.array a.index) (.array b.index)) :
      Like β (.function (.method (.array a m))) (.function (.method (.array b m)))
  | callback {a b : ArrayRef} (m : CallbackMethod) (h : β (.array a.index) (.array b.index)) :
      Like β (.function (.method (.callback a m))) (.function (.method (.callback b m)))

/-- Entries of the same name whose values are alike. -/
def Value.LikeEntry (β : Pairing) (e f : String × Value) : Prop := e.1 = f.1 ∧ e.2.Like β f.2

section

variable {β β' : Pairing} {v w : Value}

theorem Value.Like.mono (hle : β ≤ β') (h : v.Like β w) : v.Like β' w := by
  cases h with
  | atom v hcell hpromise => exact .atom v hcell hpromise
  | array h => exact .array (hle _ _ h)
  | object h => exact .object (hle _ _ h)
  | method m h => exact .method m (hle _ _ h)
  | callback m h => exact .callback m (hle _ _ h)

theorem Value.LikeEntry.mono (hle : β ≤ β') {e f : String × Value} (h : LikeEntry β e f) :
    LikeEntry β' e f := ⟨h.1, h.2.mono hle⟩

theorem Value.likeAll_mono (hle : β ≤ β') {vs ws : List Value} (h : vs.Forall₂ (Like β) ws) :
    vs.Forall₂ (Like β') ws := h.imp fun _ _ h => h.mono hle

theorem Value.likeEntries_mono (hle : β ≤ β') {es fs : List (String × Value)}
    (h : es.Forall₂ (LikeEntry β) fs) : es.Forall₂ (LikeEntry β') fs := h.imp fun _ _ h => h.mono hle

theorem Value.Like.isNullish_eq (h : v.Like β w) : w.isNullish = v.isNullish := by
  cases h <;> rfl

theorem Value.Like.isTruthy_eq (h : v.Like β w) : w.isTruthy = v.isTruthy := by
  cases h <;> rfl

theorem Value.Like.typeName_eq (h : v.Like β w) : w.typeName = v.typeName := by
  cases h <;> rfl

end

/-! ## Cells of stores -/

namespace Store

/-- A store has a cell. -/
def Has (s : Store) : Cell → Prop
  | .array i => i < s.arrays.size
  | .object i => i < s.objects.size

/-- A store with the same contents in the cells of another, and maybe more cells. -/
structure Extends (s t : Store) : Prop where
  arrays : ∀ {i : Nat} {items : Array Value}, s.arrays[i]? = some items → t.arrays[i]? = some items
  objects : ∀ {i : Nat} {entries : List (String × Value)}, s.objects[i]? = some entries →
    t.objects[i]? = some entries

/-- A store with no fewer cells than another. -/
def Within (s t : Store) : Prop := ∀ x, s.Has x → t.Has x

/-- The cells that one store has and an earlier one has not. -/
def Between (s t : Store) (x : Cell) : Prop := t.Has x ∧ ¬s.Has x

variable {s t u : Store}

theorem Extends.refl (s : Store) : s.Extends s := ⟨id, id⟩

theorem Extends.trans (h : s.Extends t) (h' : t.Extends u) : s.Extends u :=
  ⟨fun hi => h'.arrays (h.arrays hi), fun hi => h'.objects (h.objects hi)⟩

theorem Within.trans (h : s.Within t) (h' : t.Within u) : s.Within u := fun x hx => h' x (h x hx)

theorem Extends.within (h : s.Extends t) : s.Within t := by
  intro x hx
  cases x with
  | array i => exact (Array.getElem?_eq_some_iff.1 (h.arrays (Array.getElem?_eq_getElem hx))).1
  | object i => exact (Array.getElem?_eq_some_iff.1 (h.objects (Array.getElem?_eq_getElem hx))).1

theorem Between.left {x : Cell} (hle : t.Within u) (h : s.Between t x) : s.Between u x :=
  ⟨hle x h.1, h.2⟩

theorem Between.right {x : Cell} (hle : s.Within t) (h : t.Between u x) : s.Between u x :=
  ⟨h.1, fun hx => h.2 (hle x hx)⟩

theorem extends_addArray (items : Array Value) : s.Extends (s.addArray items).2 := by
  refine ⟨fun {i items} hi => ?_, id⟩
  have hlt : i < s.arrays.size := (Array.getElem?_eq_some_iff.1 hi).1
  simp only [addArray]
  rw [Array.getElem?_push_lt hlt, ← hi, Array.getElem?_eq_getElem hlt]

theorem extends_addObject (entries : List (String × Value)) : s.Extends (s.addObject entries).2 := by
  refine ⟨id, fun {i entries} hi => ?_⟩
  have hlt : i < s.objects.size := (Array.getElem?_eq_some_iff.1 hi).1
  simp only [addObject]
  rw [Array.getElem?_push_lt hlt, ← hi, Array.getElem?_eq_getElem hlt]

theorem getElem?_addArray (items : Array Value) :
    (s.addArray items).2.arrays[s.arrays.size]? = some items := by simp [addArray]

theorem getElem?_addObject (entries : List (String × Value)) :
    (s.addObject entries).2.objects[s.objects.size]? = some entries := by simp [addObject]

end Store

/-! ## Paired stores -/

/-- Paired cells have contents that are alike. -/
structure Heap (A : Store) (β : Pairing) (S : Store) : Prop where
  functional : ∀ {x z z' : Cell}, β x z → β x z' → z = z'
  injective : ∀ {x x' z : Cell}, β x z → β x' z → x = x'
  arrays : ∀ {i : Nat} {z : Cell}, β (.array i) z → ∃ j items items', z = .array j ∧ A.arrays[i]? = some items ∧
    S.arrays[j]? = some items' ∧ items.toList.Forall₂ (Value.Like β) items'.toList
  objects : ∀ {i : Nat} {z : Cell}, β (.object i) z → ∃ j entries entries', z = .object j ∧
    A.objects[i]? = some entries ∧ S.objects[j]? = some entries' ∧
    entries.Forall₂ (Value.LikeEntry β) entries'

/-- A pairing with one more pair. -/
def Pairing.add (β : Pairing) (x z : Cell) : Pairing := fun x' z' => β x' z' ∨ x' = x ∧ z' = z

/-- The pairs of a pairing whose first cell belongs to a store. -/
def Pairing.within (β : Pairing) (s : Store) : Pairing := fun x z => β x z ∧ s.Has x

theorem Pairing.le_add {β : Pairing} {x z : Cell} : β ≤ β.add x z := fun _ _ h => .inl h

theorem Pairing.add_self {β : Pairing} {x z : Cell} : β.add x z x z := .inr ⟨rfl, rfl⟩

theorem Pairing.within_le {β : Pairing} {s : Store} : β.within s ≤ β := fun _ _ h => h.1

namespace Heap

variable {A A' S S' : Store} {β : Pairing} {x z : Cell}

theorem has_right (h : Heap A β S) (hpair : β x z) : S.Has z := by
  cases x with
  | array i =>
      obtain ⟨j, items, items', rfl, -, hj, -⟩ := h.arrays hpair
      exact (Array.getElem?_eq_some_iff.1 hj).1
  | object i =>
      obtain ⟨j, entries, entries', rfl, -, hj, -⟩ := h.objects hpair
      exact (Array.getElem?_eq_some_iff.1 hj).1

/-- More cells on either side change nothing. -/
theorem extend (h : Heap A β S) (hleft : A.Extends A') (hright : S.Extends S') : Heap A' β S' where
  functional := h.functional
  injective := h.injective
  arrays hpair := by
    obtain ⟨j, items, items', rfl, hi, hj, hlike⟩ := h.arrays hpair
    exact ⟨j, items, items', rfl, hleft.arrays hi, hright.arrays hj, hlike⟩
  objects hpair := by
    obtain ⟨j, entries, entries', rfl, hi, hj, hlike⟩ := h.objects hpair
    exact ⟨j, entries, entries', rfl, hleft.objects hi, hright.objects hj, hlike⟩

theorem functional_add (h : Heap A β S) (hnone : ∀ z, ¬β x z) {y u u' : Cell}
    (h₁ : β.add x z y u) (h₂ : β.add x z y u') : u = u' := by
  rcases h₁ with h₁ | ⟨rfl, rfl⟩ <;> rcases h₂ with h₂ | ⟨hx, rfl⟩
  · exact h.functional h₁ h₂
  · exact absurd (hx ▸ h₁) (hnone _)
  · exact absurd h₂ (hnone _)
  · rfl

theorem injective_add (h : Heap A β S) (hnew : ¬S.Has z) {y y' u : Cell} (h₁ : β.add x z y u)
    (h₂ : β.add x z y' u) : y = y' := by
  rcases h₁ with h₁ | ⟨rfl, rfl⟩ <;> rcases h₂ with h₂ | ⟨rfl, hz⟩
  · exact h.injective h₁ h₂
  · exact absurd (hz ▸ h.has_right h₁) hnew
  · exact absurd (h.has_right h₂) hnew
  · rfl

/-- A new array gets as its partner one that has no partner yet and whose elements are alike. -/
theorem addArray {i : Nat} {items items' : Array Value} (h : Heap A β S)
    (hnone : ∀ z, ¬β (.array i) z) (hi : A.arrays[i]? = some items)
    (hlike : items.toList.Forall₂ (Value.Like β) items'.toList) :
    Heap A (β.add (.array i) (.array S.arrays.size)) (S.addArray items').2 where
  functional := h.functional_add hnone
  injective := h.injective_add (Nat.lt_irrefl _)
  arrays hpair := by
    rcases hpair with hpair | ⟨hx, rfl⟩
    · obtain ⟨j, is, is', rfl, hi, hj, hlike⟩ := h.arrays hpair
      exact ⟨j, is, is', rfl, hi, (Store.extends_addArray items').arrays hj,
        Value.likeAll_mono Pairing.le_add hlike⟩
    · cases hx
      exact ⟨S.arrays.size, items, items', rfl, hi, Store.getElem?_addArray items',
        Value.likeAll_mono Pairing.le_add hlike⟩
  objects hpair := by
    rcases hpair with hpair | ⟨hx, rfl⟩
    · obtain ⟨j, es, es', rfl, hi, hj, hlike⟩ := h.objects hpair
      exact ⟨j, es, es', rfl, hi, hj, Value.likeEntries_mono Pairing.le_add hlike⟩
    · cases hx

/-- A new object gets as its partner one that has no partner yet and whose entries are alike. -/
theorem addObject {i : Nat} {entries entries' : List (String × Value)} (h : Heap A β S)
    (hnone : ∀ z, ¬β (.object i) z) (hi : A.objects[i]? = some entries)
    (hlike : entries.Forall₂ (Value.LikeEntry β) entries') :
    Heap A (β.add (.object i) (.object S.objects.size)) (S.addObject entries').2 where
  functional := h.functional_add hnone
  injective := h.injective_add (Nat.lt_irrefl _)
  arrays hpair := by
    rcases hpair with hpair | ⟨hx, rfl⟩
    · obtain ⟨j, is, is', rfl, hi, hj, hlike⟩ := h.arrays hpair
      exact ⟨j, is, is', rfl, hi, hj, Value.likeAll_mono Pairing.le_add hlike⟩
    · cases hx
  objects hpair := by
    rcases hpair with hpair | ⟨hx, rfl⟩
    · obtain ⟨j, es, es', rfl, hi, hj, hlike⟩ := h.objects hpair
      exact ⟨j, es, es', rfl, hi, (Store.extends_addObject entries').objects hj,
        Value.likeEntries_mono Pairing.le_add hlike⟩
    · cases hx
      exact ⟨S.objects.size, entries, entries', rfl, hi, Store.getElem?_addObject entries',
        Value.likeEntries_mono Pairing.le_add hlike⟩

end Heap

/-! ## Stores that hold what they refer to -/

/-- Every cell of a store with itself. -/
def Store.self (s : Store) : Pairing := fun x z => x = z ∧ s.Has x

/-- A store has the cell that a value refers to, and the value is no promise. -/
def Store.Holds (s : Store) (v : Value) : Prop := v.Like s.self v

/-- A store holds whatever stands in its cells. -/
def Store.Closed (s : Store) : Prop := Heap s s.self s

section

variable {s t A S : Store} {β : Pairing} {v w : Value}

theorem Store.self_mono (hle : s.Within t) : s.self ≤ t.self := fun _ _ h => ⟨h.1, hle _ h.2⟩

theorem Store.Holds.mono (hle : s.Within t) (h : s.Holds v) : t.Holds v :=
  Value.Like.mono (Store.self_mono hle) h

/-- What is like another value as seen from a store that holds it. -/
theorem Value.Like.within (hheld : s.Holds v) (h : v.Like β w) : v.Like (β.within s) w := by
  cases h with
  | atom v hcell hpromise => exact .atom v hcell hpromise
  | array h =>
      rcases hheld with ⟨_, hcell, _⟩ | ⟨_, hhas⟩
      · cases hcell
      · exact .array ⟨h, hhas⟩
  | object h =>
      rcases hheld with ⟨_, hcell, _⟩ | _ | ⟨_, hhas⟩
      · cases hcell
      · exact .object ⟨h, hhas⟩
  | method m h =>
      rcases hheld with ⟨_, hcell, _⟩ | _ | _ | ⟨_, _, hhas⟩
      · cases hcell
      · exact .method m ⟨h, hhas⟩
  | callback m h =>
      rcases hheld with ⟨_, hcell, _⟩ | _ | _ | _ | ⟨_, _, hhas⟩
      · cases hcell
      · exact .callback m ⟨h, hhas⟩

/-- What an earlier store holds is alike as seen from that store. -/
theorem Heap.within {T : Store} (h : Heap A β S) (hclosed : T.Closed) (hext : T.Extends A) :
    Heap T (β.within T) S where
  functional h₁ h₂ := h.functional h₁.1 h₂.1
  injective h₁ h₂ := h.injective h₁.1 h₂.1
  arrays := by
    rintro i z ⟨hpair, hhas⟩
    obtain ⟨j, items, items', rfl, hi, hj, hlike⟩ := h.arrays hpair
    obtain ⟨_, own, own', hown, hT, hT', hself⟩ := hclosed.arrays ⟨rfl, hhas⟩
    cases hown
    cases hT.symm.trans hT'
    cases (hext.arrays hT).symm.trans hi
    refine ⟨j, items, items', rfl, hT, hj, ?_⟩
    have hheld : ∀ v ∈ items.toList, v.Like T.self v := List.forall₂_same.1 hself
    exact ((List.forall₂_and_left _ _).2 ⟨hheld, hlike⟩).imp fun _ _ hv => hv.2.within hv.1
  objects := by
    rintro i z ⟨hpair, hhas⟩
    obtain ⟨j, entries, entries', rfl, hi, hj, hlike⟩ := h.objects hpair
    obtain ⟨_, own, own', hown, hT, hT', hself⟩ := hclosed.objects ⟨rfl, hhas⟩
    cases hown
    cases hT.symm.trans hT'
    cases (hext.objects hT).symm.trans hi
    refine ⟨j, entries, entries', rfl, hT, hj, ?_⟩
    have hheld : ∀ e ∈ entries, Value.LikeEntry T.self e e := List.forall₂_same.1 hself
    exact ((List.forall₂_and_left _ _).2 ⟨hheld, hlike⟩).imp
      fun _ _ he => ⟨he.2.1, he.2.2.within he.1.2⟩

theorem Store.self_addArray (items : Array Value) :
    s.self.add (.array s.arrays.size) (.array s.arrays.size) = (s.addArray items).2.self := by
  funext x z
  refine propext ⟨?_, ?_⟩
  · rintro (⟨rfl, hx⟩ | ⟨rfl, rfl⟩)
    · exact ⟨rfl, (extends_addArray items).within _ hx⟩
    · exact ⟨rfl, by simp [Store.Has, Store.addArray]⟩
  · rintro ⟨rfl, hx⟩
    cases x with
    | object i => exact .inl ⟨rfl, hx⟩
    | array i =>
        by_cases hi : i < s.arrays.size
        · exact .inl ⟨rfl, hi⟩
        · simp only [Store.Has, Store.addArray, Array.size_push] at hx
          have hlast : i = s.arrays.size := by omega
          exact .inr ⟨congrArg _ hlast, congrArg _ hlast⟩

theorem Store.self_addObject (entries : List (String × Value)) :
    s.self.add (.object s.objects.size) (.object s.objects.size) = (s.addObject entries).2.self := by
  funext x z
  refine propext ⟨?_, ?_⟩
  · rintro (⟨rfl, hx⟩ | ⟨rfl, rfl⟩)
    · exact ⟨rfl, (extends_addObject entries).within _ hx⟩
    · exact ⟨rfl, by simp [Store.Has, Store.addObject]⟩
  · rintro ⟨rfl, hx⟩
    cases x with
    | array i => exact .inl ⟨rfl, hx⟩
    | object i =>
        by_cases hi : i < s.objects.size
        · exact .inl ⟨rfl, hi⟩
        · simp only [Store.Has, Store.addObject, Array.size_push] at hx
          have hlast : i = s.objects.size := by omega
          exact .inr ⟨congrArg _ hlast, congrArg _ hlast⟩

/-- A new array of values that the store holds. -/
theorem Store.Closed.addArray {items : Array Value} (h : s.Closed)
    (hitems : ∀ v ∈ items.toList, s.Holds v) : (s.addArray items).2.Closed := by
  have hnone : ∀ z, ¬s.self (.array s.arrays.size) z := fun z hz => Nat.lt_irrefl _ hz.2
  have hnew := (h.extend (extends_addArray items) (Extends.refl s)).addArray hnone
    (getElem?_addArray items) (List.forall₂_same.2 hitems)
  rwa [self_addArray] at hnew

/-- A new object of values that the store holds. -/
theorem Store.Closed.addObject {entries : List (String × Value)} (h : s.Closed)
    (hentries : ∀ e ∈ entries, s.Holds e.2) : (s.addObject entries).2.Closed := by
  have hnone : ∀ z, ¬s.self (.object s.objects.size) z := fun z hz => Nat.lt_irrefl _ hz.2
  have hnew := (h.extend (extends_addObject entries) (Extends.refl s)).addObject hnone
    (getElem?_addObject entries) (List.forall₂_same.2 fun e he => ⟨rfl, hentries e he⟩)
  rwa [self_addObject] at hnew

end

end FieldScript
