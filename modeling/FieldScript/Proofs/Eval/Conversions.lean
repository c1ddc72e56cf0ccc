import Mathlib.Data.Fintype.Card
import FieldScript.Proofs.Eval.Pairing

/-!
# Texts, numbers and documents of values that are alike

Values that are alike have the same text, the same number and the same document, each in its store.
The conversions follow a value to a depth that is bounded by the number of cells, and the two stores
may have different numbers of cells. So one has to know that the bound never matters.

## Strategy

* A conversion that succeeds to a depth on one side succeeds to that depth on the other side, because
  the contents are alike (`Heap.textOf_eq`, `Heap.documentOf?_eq`).
* `exists_at_bound`: if a cell needs some depth, then for every smaller depth there is a cell that
  needs exactly that depth. These cells are different, so their number bounds the depth.
-/

namespace FieldScript

/-! ## The bound of the depth -/

/-- What succeeds at some depth succeeds at a depth that is the number of the cells: `ok d x` is to say
that the depth `d` suffices for the cell `x`. A cell that needs more than one level contains a cell
that needs one level less. -/
theorem exists_at_bound {α : Type} (ok : Nat → α → Prop) (good : α → Prop) (number : α → Nat) (n : Nat)
    (hnumber : ∀ x, good x → number x < n)
    (hinjective : ∀ x y, good x → good y → number x = number y → x = y)
    (hmono : ∀ d x, ok d x → ok (d + 1) x)
    (hstep : ∀ d x, good x → ok (d + 2) x → ¬ok (d + 1) x → ∃ y, good y ∧ ok (d + 1) y ∧ ¬ok d y)
    {d : Nat} {x : α} (hx : good x) (h : ok d x) : ok n x := by
  have hmonos : ∀ {d e x}, d ≤ e → ok d x → ok e x := by
    intro d e x hle h
    induction hle with
    | refl => exact h
    | step _ ih => exact hmono _ _ ih
  by_contra hnot
  have hmany : ∃ m, n ≤ m ∧ ∃ y, good y ∧ ok (m + 1) y ∧ ¬ok m y := by
    have hless : n < d := by
      by_contra hle
      exact hnot (hmonos (Nat.not_lt.1 hle) h)
    induction d with
    | zero => omega
    | succ d ih =>
        by_cases hd : ok d x
        · by_cases hlt : n < d
          · exact ih hd hlt
          · exact absurd (hmonos (Nat.not_lt.1 hlt) hd) hnot
        · exact ⟨d, by omega, x, hx, h, hd⟩
  have hevery : ∀ k : Fin (n + 1), ∃ y, good y ∧ ok (k + 1) y ∧ ¬ok k y := by
    obtain ⟨m, hle, hm⟩ := hmany
    have hdown : ∀ i ≤ m, ∃ y, good y ∧ ok (m - i + 1) y ∧ ¬ok (m - i) y := by
      intro i hi
      induction i with
      | zero => exact hm
      | succ i ih =>
          obtain ⟨y, hy, hok, hno⟩ := ih (by omega)
          have heq : m - i = m - (i + 1) + 1 := by omega
          rw [heq] at hok hno
          exact hstep _ y hy hok hno
    intro k
    have hdownk := hdown (m - k) (by omega)
    rwa [Nat.sub_sub_self (by omega)] at hdownk
  choose pick hgood hok hno using hevery
  have hinj : Function.Injective fun k => (⟨number (pick k), hnumber _ (hgood k)⟩ : Fin n) := by
    intro k l hkl
    have heq : pick k = pick l := hinjective _ _ (hgood k) (hgood l) (by simpa using hkl)
    by_contra hne
    rcases Nat.lt_or_gt_of_ne (Fin.val_ne_of_ne hne) with hlt | hlt
    · exact hno l (heq ▸ hmonos hlt (hok k))
    · exact hno k (heq ▸ hmonos hlt (hok l))
  have hcard := Fintype.card_le_of_injective _ hinj
  rw [Fintype.card_fin, Fintype.card_fin] at hcard
  omega

/-! ## Lists of conversions -/

theorem Except.exists_of_bind_eq_ok {ε α β : Type} {x : Except ε α} {f : α → Except ε β} {b : β}
    (h : x >>= f = .ok b) : ∃ a, x = .ok a ∧ f a = .ok b := by
  cases x with
  | error e => cases h
  | ok a => exact ⟨a, rfl, h⟩

section

variable {ε α γ δ : Type} {f : α → Except ε δ} {g : γ → Except ε δ} {xs : List α} {zs : List δ}

theorem mapM_cons_ok {x : α} : (x :: xs).mapM f = .ok zs ↔
    ∃ z rest, f x = .ok z ∧ xs.mapM f = .ok rest ∧ zs = z :: rest := by
  rw [List.mapM_cons]
  cases hx : f x with
  | error e => simp [bind, Except.bind]
  | ok z => cases hxs : xs.mapM f <;> simp [bind, Except.bind, pure, Except.pure, eq_comm]

/-- What succeeds on a list succeeds on each element. -/
theorem exists_ok_of_mem (h : xs.mapM f = .ok zs) {x : α} (hx : x ∈ xs) : ∃ z, f x = .ok z := by
  induction xs generalizing zs with
  | nil => cases hx
  | cons y xs ih =>
      obtain ⟨z, rest, hy, hrest, -⟩ := mapM_cons_ok.1 h
      rcases List.mem_cons.1 hx with rfl | hx
      · exact ⟨z, hy⟩
      · exact ih hrest hx

/-- What succeeds on each element succeeds on the list. -/
theorem exists_mapM_ok (h : ∀ x ∈ xs, ∃ z, f x = .ok z) : ∃ zs, xs.mapM f = .ok zs := by
  induction xs with
  | nil => exact ⟨[], rfl⟩
  | cons x xs ih =>
      obtain ⟨z, hx⟩ := h x List.mem_cons_self
      obtain ⟨zs, hxs⟩ := ih fun y hy => h y (List.mem_cons_of_mem x hy)
      exact ⟨z :: zs, mapM_cons_ok.2 ⟨z, zs, hx, hxs, rfl⟩⟩

/-- Where one conversion of a list succeeds and another does not, they differ on an element. -/
theorem exists_differs {f' : α → Except ε δ} (h : xs.mapM f = .ok zs)
    (hnot : ¬∃ zs, xs.mapM f' = .ok zs) : ∃ x ∈ xs, (∃ z, f x = .ok z) ∧ ¬∃ z, f' x = .ok z := by
  by_contra hall
  push Not at hall
  refine hnot (exists_mapM_ok fun x hx => ?_)
  obtain ⟨z, hz⟩ := exists_ok_of_mem h hx
  obtain ⟨z', hz'⟩ := hall x hx ⟨z, hz⟩
  exact ⟨z', hz'⟩

/-- Two conversions that agree on related elements agree on lists of them. -/
theorem mapM_ok_of_forall₂ {R : α → γ → Prop} {ys : List γ} (hrel : xs.Forall₂ R ys)
    (himp : ∀ x y z, R x y → f x = .ok z → g y = .ok z) (h : xs.mapM f = .ok zs) :
    ys.mapM g = .ok zs := by
  induction hrel generalizing zs with
  | nil => exact h
  | cons hxy _ ih =>
      obtain ⟨z, rest, hx, hrest, rfl⟩ := mapM_cons_ok.1 h
      exact mapM_cons_ok.2 ⟨z, rest, himp _ _ _ hxy hx, ih hrest, rfl⟩

theorem mapM_ok_of_imp {f' : α → Except ε δ} (himp : ∀ x z, f x = .ok z → f' x = .ok z)
    (h : xs.mapM f = .ok zs) : xs.mapM f' = .ok zs := by
  have hsame : xs.Forall₂ Eq xs := List.forall₂_refl xs
  refine mapM_ok_of_forall₂ hsame ?_ h
  rintro x y z rfl hx
  exact himp x z hx

/-- An element of the second of two related lists has a partner. -/
theorem exists_left_of_mem {R : α → γ → Prop} {ys : List γ} (hrel : xs.Forall₂ R ys) {y : γ}
    (hy : y ∈ ys) : ∃ x ∈ xs, R x y := by
  induction hrel with
  | nil => cases hy
  | @cons x _ _ _ hxy _ ih =>
      rcases List.mem_cons.1 hy with rfl | hy
      · exact ⟨x, List.mem_cons_self, hxy⟩
      · obtain ⟨x, hx, hxy⟩ := ih hy
        exact ⟨x, List.mem_cons_of_mem _ hx, hxy⟩

end

/-! ## Texts -/

namespace Store

variable {s : Store} {held : Option ArrayRef} {d : Nat}

/-- The text of an element within the text of an array. -/
def itemText (s : Store) (held : Option ArrayRef) (d : Nat) (v : Value) : Except Abort String :=
  if v.isNullish then .ok "" else s.textOf held d v

theorem textOf_array {a : ArrayRef} {t : String} :
    s.textOf held (d + 1) (.array a) = .ok t ↔ held ≠ some a ∧ ∃ parts,
      (s.array a).toList.mapM (s.itemText held d) = .ok parts ∧ t = ",".intercalate parts := by
  have heq : s.textOf held (d + 1) (.array a) =
      if held == some a then .error .aliased
      else do
        let parts ← (s.array a).toList.mapM (s.itemText held d)
        return ",".intercalate parts := rfl
  rw [heq]
  by_cases hheld : held = some a
  · simp [hheld]
  · rw [if_neg (by simpa using hheld)]
    cases hparts : (s.array a).toList.mapM (s.itemText held d) with
    | error e => simp [bind, Except.bind]
    | ok parts => simp [bind, Except.bind, pure, Except.pure, hheld, eq_comm]

theorem textOf_array_zero {a : ArrayRef} {t : String} : s.textOf held 0 (.array a) ≠ .ok t := by
  intro h
  have heq : s.textOf held 0 (.array a) =
      if held == some a then .error .aliased else .error .cyclic := rfl
  rw [heq] at h
  split at h <;> cases h

/-- The text of what is no array needs no depth. -/
theorem textOf_flat {v : Value} (h : ∀ a, v ≠ .array a) (s' : Store) (held' : Option ArrayRef)
    (d' : Nat) : s'.textOf held' d' v = s.textOf held d v := by
  cases v with
  | array a => exact absurd rfl (h a)
  | _ => simp only [textOf]

theorem itemText_imp {s' : Store} {held' : Option ArrayRef} {d' : Nat} {v w : Value} {t : String}
    (hnullish : w.isNullish = v.isNullish)
    (himp : s.textOf held d v = .ok t → s'.textOf held' d' w = .ok t)
    (h : s.itemText held d v = .ok t) : s'.itemText held' d' w = .ok t := by
  unfold itemText at h ⊢
  rw [hnullish]
  split
  · rwa [if_pos ‹_›] at h
  · rw [if_neg ‹_›] at h
    exact himp h

theorem textOf_succ {v : Value} {t : String} (h : s.textOf held d v = .ok t) :
    s.textOf held (d + 1) v = .ok t := by
  induction d generalizing v t with
  | zero =>
      cases v with
      | array a => exact absurd h textOf_array_zero
      | _ => exact h
  | succ d ih =>
      cases v with
      | array a =>
          obtain ⟨hheld, parts, hparts, ht⟩ := textOf_array.1 h
          exact textOf_array.2
            ⟨hheld, parts, mapM_ok_of_imp (fun v t hv => itemText_imp rfl ih hv) hparts, ht⟩
      | _ => exact h

theorem textOf_mono {v : Value} {t : String} {e : Nat} (hle : d ≤ e) (h : s.textOf held d v = .ok t) :
    s.textOf held e v = .ok t := by
  induction hle with
  | refl => exact h
  | step _ ih => exact textOf_succ ih

end Store

namespace Heap

variable {T S : Store} {β : Pairing} {v w : Value} {held held' : Option ArrayRef} {d : Nat}

/-- Arrays that may not be read are paired. -/
abbrev LikeHeld (β : Pairing) : Option ArrayRef → Option ArrayRef → Prop :=
  Option.Rel fun a b => β (.array a.index) (.array b.index)

/-- The elements of paired arrays. -/
theorem array_like {a b : ArrayRef} (h : Heap T β S) (hpair : β (.array a.index) (.array b.index)) :
    (T.array a).toList.Forall₂ (Value.Like β) (S.array b).toList := by
  obtain ⟨j, items, items', hj, hitems, hitems', hlike⟩ := h.arrays hpair
  cases hj
  unfold Store.array
  rw [hitems, hitems']
  exact hlike

/-- The entries of paired objects. -/
theorem object_like {a b : ObjectRef} (h : Heap T β S) (hpair : β (.object a.index) (.object b.index)) :
    (T.object a).Forall₂ (Value.LikeEntry β) (S.object b) := by
  obtain ⟨j, entries, entries', hj, hentries, hentries', hlike⟩ := h.objects hpair
  cases hj
  unfold Store.object
  rw [hentries, hentries']
  exact hlike

theorem held_ne {a b : ArrayRef} (h : Heap T β S) (hheld : LikeHeld β held held')
    (hpair : β (.array a.index) (.array b.index)) (hne : held ≠ some a) : held' ≠ some b := by
  cases hheld with
  | none => simp
  | @some a' b' hpair' =>
      rintro heq
      cases heq
      have hsame := h.injective hpair hpair'
      cases a
      cases a'
      cases hsame
      exact hne rfl

/-- Values that are alike have the same text to every depth. -/
theorem textOf_eq {t : String} (h : Heap T β S) (hheld : LikeHeld β held held') (hlike : v.Like β w)
    (ht : T.textOf held d v = .ok t) : S.textOf held' d w = .ok t := by
  induction d generalizing v w t with
  | zero =>
      cases hlike with
      | array hpair => exact absurd ht Store.textOf_array_zero
      | atom v hcell =>
          rw [← ht]
          exact Store.textOf_flat (by rintro a rfl; cases hcell) S held' 0
      | _ => exact ht
  | succ d ih =>
      cases hlike with
      | array hpair =>
          obtain ⟨hne, parts, hparts, ht⟩ := Store.textOf_array.1 ht
          refine Store.textOf_array.2 ⟨h.held_ne hheld hpair hne, parts, ?_, ht⟩
          exact mapM_ok_of_forall₂ (h.array_like hpair)
            (fun v w t hvw hv => Store.itemText_imp hvw.isNullish_eq (ih hvw) hv) hparts
      | atom v hcell =>
          rw [← ht]
          exact Store.textOf_flat (by rintro a rfl; cases hcell) S held' (d + 1)
      | _ => exact ht

/-- The arrays that have a partner. -/
def PairedArray (β : Pairing) (j : Nat) : Prop := ∃ i, β (.array i) (.array j)

/-- An array that needs more than one level contains one that needs one level less. -/
theorem textOf_step {j : Nat} {t : String} (h : Heap T β S) (hgood : PairedArray β j)
    (ht : S.textOf held (d + 2) (.array ⟨j⟩) = .ok t)
    (hnot : ¬∃ t, S.textOf held (d + 1) (.array ⟨j⟩) = .ok t) :
    ∃ k, PairedArray β k ∧ (∃ t, S.textOf held (d + 1) (.array ⟨k⟩) = .ok t) ∧
      ¬∃ t, S.textOf held d (.array ⟨k⟩) = .ok t := by
  obtain ⟨i, hpair⟩ := hgood
  obtain ⟨hne, parts, hparts, -⟩ := Store.textOf_array.1 ht
  have hfails : ¬∃ parts, (S.array ⟨j⟩).toList.mapM (S.itemText held d) = .ok parts :=
    fun ⟨parts, hparts⟩ => hnot ⟨_, Store.textOf_array.2 ⟨hne, parts, hparts, rfl⟩⟩
  obtain ⟨w, hw, ⟨part, hpart⟩, hfail⟩ := exists_differs hparts hfails
  have hflat : (∀ a, w ≠ .array a) → False := by
    intro hflat
    refine hfail ⟨part, Store.itemText_imp rfl (fun ht => ?_) hpart⟩
    rw [← ht]
    exact Store.textOf_flat hflat S held d
  obtain ⟨v, -, hlike⟩ := exists_left_of_mem (h.array_like (a := ⟨i⟩) (b := ⟨j⟩) hpair) hw
  cases hlike with
  | @array a b hinner =>
      have hpart' : S.textOf held (d + 1) (.array b) = .ok part := hpart
      exact ⟨b.index, ⟨a.index, hinner⟩, ⟨part, hpart'⟩, hfail⟩
  | atom v hcell => exact (hflat (by rintro a rfl; cases hcell)).elim
  | object => exact (hflat (by simp)).elim
  | method => exact (hflat (by simp)).elim
  | callback => exact (hflat (by simp)).elim

/-- The number of arrays bounds the depth of texts. -/
theorem textOf_size {t : String} (h : Heap T β S) (hlike : v.Like β w)
    (ht : S.textOf held d w = .ok t) : S.textOf held S.arrays.size w = .ok t := by
  by_cases harray : ∃ b, w = .array b
  · obtain ⟨b, rfl⟩ := harray
    have hgood : PairedArray β b.index := by
      cases hlike with
      | atom v hcell => cases hcell
      | @array a _ hpair => exact ⟨a.index, hpair⟩
    have hbound : ∃ t, S.textOf held S.arrays.size (.array ⟨b.index⟩) = .ok t :=
      exists_at_bound (fun d j => ∃ t, S.textOf held d (.array ⟨j⟩) = .ok t) (PairedArray β) id
        S.arrays.size (fun j ⟨i, hpair⟩ => h.has_right hpair) (fun _ _ _ _ hid => hid)
        (fun d j ⟨t, ht⟩ => ⟨t, Store.textOf_succ ht⟩)
        (fun d j hgood ⟨t, ht⟩ hnot => h.textOf_step hgood ht hnot) hgood ⟨t, ht⟩
    obtain ⟨t', ht'⟩ := hbound
    have hsame : t' = t := by
      have hle := Store.textOf_mono (Nat.le_max_left S.arrays.size d) ht'
      have hle' := Store.textOf_mono (Nat.le_max_right S.arrays.size d) ht
      exact Except.ok.inj (hle.symm.trans hle')
    rw [← hsame]
    exact ht'
  · rw [← ht]
    exact Store.textOf_flat (fun a ha => harray ⟨a, ha⟩) S held _

/-- Values that are alike have the same text. -/
theorem text_eq {t : String} (h : Heap T β S) (hlike : v.Like β w) (ht : T.text v = .ok t) :
    S.text w = .ok t := Store.textOf_succ (h.textOf_size hlike (h.textOf_eq .none hlike ht))

/-- Values that are alike have the same number. -/
theorem numberOf_eq {x : Float} (h : Heap T β S) (hheld : LikeHeld β held held') (hlike : v.Like β w)
    (hx : T.numberOf held v = .ok x) : S.numberOf held' w = .ok x := by
  cases hlike with
  | @array a b hpair =>
      have heq : T.numberOf held (.array a) =
          (do return Number.ofText (← T.textOf held (T.arrays.size + 1) (.array a))) := rfl
      rw [heq] at hx
      cases ht : T.textOf held (T.arrays.size + 1) (.array a) with
      | error e => rw [ht] at hx; cases hx
      | ok t =>
          rw [ht] at hx
          have ht' := Store.textOf_succ (h.textOf_size (.array hpair) (h.textOf_eq hheld (.array hpair) ht))
          show (do return Number.ofText (← S.textOf held' (S.arrays.size + 1) (.array b))) = _
          rw [ht']
          exact hx
  | atom v hcell =>
      cases v with
      | array a => cases hcell
      | _ => exact hx
  | _ => exact hx

end Heap

/-! ## Documents -/

namespace Store

variable {s : Store} {d : Nat} {r : Option Json}

/-- The document of an element within that of an array. -/
def itemDocument (s : Store) (d : Nat) (v : Value) : Except Abort Json := do
  return (← s.documentOf? d v).getD .null

/-- The member of a document for an entry of an object. -/
def memberDocument (s : Store) (d : Nat) (e : String × Value) : Except Abort (Option (String × Json)) := do
  return (← s.documentOf? d e.2).map fun j => (e.1, j)

theorem documentOf?_array {a : ArrayRef} : s.documentOf? (d + 1) (.array a) = .ok r ↔
    ∃ items, (s.array a).toList.mapM (s.itemDocument d) = .ok items ∧ r = some (.array items) := by
  have heq : s.documentOf? (d + 1) (.array a) = (do
      let items ← (s.array a).toList.mapM (s.itemDocument d)
      return some (.array items)) := rfl
  rw [heq]
  cases hitems : (s.array a).toList.mapM (s.itemDocument d) with
  | error e => simp [bind, Except.bind]
  | ok items => simp [bind, Except.bind, pure, Except.pure, eq_comm]

theorem documentOf?_object {o : ObjectRef} : s.documentOf? (d + 1) (.object o) = .ok r ↔
    ∃ members, (s.object o).mapM (s.memberDocument d) = .ok members ∧
      r = some (.object (members.filterMap id)) := by
  have heq : s.documentOf? (d + 1) (.object o) = (do
      let members ← (s.object o).mapM (s.memberDocument d)
      return some (.object (members.filterMap id))) := rfl
  rw [heq]
  cases hmembers : (s.object o).mapM (s.memberDocument d) with
  | error e => simp [bind, Except.bind]
  | ok members => simp [bind, Except.bind, pure, Except.pure, eq_comm]

/-- The document of what is no array and no object needs no depth. -/
theorem documentOf?_flat {v : Value} (harray : ∀ a, v ≠ .array a) (hobject : ∀ o, v ≠ .object o)
    (s' : Store) (d' : Nat) : s'.documentOf? d' v = s.documentOf? d v := by
  cases v with
  | array a => exact absurd rfl (harray a)
  | object o => exact absurd rfl (hobject o)
  | _ => simp only [documentOf?]

theorem itemDocument_imp {s' : Store} {d' : Nat} {v w : Value} {j : Json}
    (himp : ∀ r, s.documentOf? d v = .ok r → s'.documentOf? d' w = .ok r)
    (h : s.itemDocument d v = .ok j) : s'.itemDocument d' w = .ok j := by
  unfold itemDocument at h ⊢
  cases hr : s.documentOf? d v with
  | error e => rw [hr] at h; cases h
  | ok r => rwa [himp r hr, ← hr]

theorem memberDocument_imp {s' : Store} {d' : Nat} {e f : String × Value} {m : Option (String × Json)}
    (hname : e.1 = f.1) (himp : ∀ r, s.documentOf? d e.2 = .ok r → s'.documentOf? d' f.2 = .ok r)
    (h : s.memberDocument d e = .ok m) : s'.memberDocument d' f = .ok m := by
  unfold memberDocument at h ⊢
  cases hr : s.documentOf? d e.2 with
  | error e => rw [hr] at h; cases h
  | ok r => rwa [himp r hr, ← hr, ← hname]

theorem itemDocument_ok {v : Value} :
    (∃ j, s.itemDocument d v = .ok j) ↔ ∃ r, s.documentOf? d v = .ok r := by
  unfold itemDocument
  cases s.documentOf? d v <;> simp [bind, Except.bind, pure, Except.pure]

theorem memberDocument_ok {e : String × Value} :
    (∃ m, s.memberDocument d e = .ok m) ↔ ∃ r, s.documentOf? d e.2 = .ok r := by
  unfold memberDocument
  cases s.documentOf? d e.2 <;> simp [bind, Except.bind, pure, Except.pure]

theorem documentOf?_succ {v : Value} (h : s.documentOf? d v = .ok r) :
    s.documentOf? (d + 1) v = .ok r := by
  induction d generalizing v r with
  | zero =>
      cases v with
      | array a => cases h
      | object o => cases h
      | _ => exact h
  | succ d ih =>
      cases v with
      | array a =>
          obtain ⟨items, hitems, hr⟩ := documentOf?_array.1 h
          exact documentOf?_array.2
            ⟨items, mapM_ok_of_imp (fun v j hv => itemDocument_imp (fun r => ih) hv) hitems, hr⟩
      | object o =>
          obtain ⟨members, hmembers, hr⟩ := documentOf?_object.1 h
          exact documentOf?_object.2
            ⟨members, mapM_ok_of_imp (fun e m he => memberDocument_imp rfl (fun r => ih) he) hmembers, hr⟩
      | _ => exact h

theorem documentOf?_mono {v : Value} {e : Nat} (hle : d ≤ e) (h : s.documentOf? d v = .ok r) :
    s.documentOf? e v = .ok r := by
  induction hle with
  | refl => exact h
  | step _ ih => exact documentOf?_succ ih

end Store

/-- The value that refers to a cell. -/
def Cell.value : Cell → Value
  | .array i => .array ⟨i⟩
  | .object i => .object ⟨i⟩

/-- The number of a cell among all cells of a store. -/
def Store.number (s : Store) : Cell → Nat
  | .array i => i
  | .object i => s.arrays.size + i

namespace Heap

variable {T S : Store} {β : Pairing} {v w : Value} {d : Nat} {r : Option Json}

/-- Values that are alike have the same document to every depth. -/
theorem documentOf?_eq (h : Heap T β S) (hlike : v.Like β w) (hr : T.documentOf? d v = .ok r) :
    S.documentOf? d w = .ok r := by
  induction d generalizing v w r with
  | zero =>
      cases hlike with
      | array => cases hr
      | object => cases hr
      | atom v hcell =>
          rw [← hr]
          exact Store.documentOf?_flat (by rintro a rfl; cases hcell) (by rintro o rfl; cases hcell) S 0
      | _ => exact hr
  | succ d ih =>
      cases hlike with
      | array hpair =>
          obtain ⟨items, hitems, hr⟩ := Store.documentOf?_array.1 hr
          refine Store.documentOf?_array.2 ⟨items, ?_, hr⟩
          exact mapM_ok_of_forall₂ (h.array_like hpair)
            (fun v w j hvw hv => Store.itemDocument_imp (fun r => ih hvw) hv) hitems
      | object hpair =>
          obtain ⟨members, hmembers, hr⟩ := Store.documentOf?_object.1 hr
          refine Store.documentOf?_object.2 ⟨members, ?_, hr⟩
          exact mapM_ok_of_forall₂ (h.object_like hpair)
            (fun e f m hef he => Store.memberDocument_imp hef.1 (fun r => ih hef.2) he) hmembers
      | atom v hcell =>
          rw [← hr]
          exact Store.documentOf?_flat (by rintro a rfl; cases hcell) (by rintro o rfl; cases hcell) S _
      | _ => exact hr

/-- The cells that have a partner. -/
def Paired (β : Pairing) (z : Cell) : Prop := ∃ x, β x z

/-- What is like another value is a cell with a partner or has no content. -/
theorem paired_or_flat (hlike : v.Like β w) :
    (∃ z, Paired β z ∧ w = z.value) ∨ (∀ a, w ≠ .array a) ∧ ∀ o, w ≠ .object o := by
  cases hlike with
  | @array a b hpair => exact .inl ⟨.array b.index, ⟨_, hpair⟩, rfl⟩
  | @object a b hpair => exact .inl ⟨.object b.index, ⟨_, hpair⟩, rfl⟩
  | atom v hcell =>
      refine .inr ⟨?_, ?_⟩
      · rintro a rfl
        cases hcell
      · rintro o rfl
        cases hcell
  | method => exact .inr ⟨by simp, by simp⟩
  | callback => exact .inr ⟨by simp, by simp⟩

/-- A cell that needs more than one level contains one that needs one level less. -/
theorem documentOf?_step {z : Cell} (h : Heap T β S) (hgood : Paired β z)
    (hr : S.documentOf? (d + 2) z.value = .ok r)
    (hnot : ¬∃ r, S.documentOf? (d + 1) z.value = .ok r) :
    ∃ y, Paired β y ∧ (∃ r, S.documentOf? (d + 1) y.value = .ok r) ∧
      ¬∃ r, S.documentOf? d y.value = .ok r := by
  obtain ⟨x, hpair⟩ := hgood
  have hinner : ∃ v w : Value, v.Like β w ∧ (∃ r, S.documentOf? (d + 1) w = .ok r) ∧
      ¬∃ r, S.documentOf? d w = .ok r := by
    cases x with
    | array i =>
        obtain ⟨j, -, -, rfl, -⟩ := h.arrays hpair
        obtain ⟨docs, hdocs, -⟩ := Store.documentOf?_array.1 hr
        obtain ⟨w, hw, hok, hfail⟩ := exists_differs hdocs
          fun ⟨docs, hdocs⟩ => hnot ⟨_, Store.documentOf?_array.2 ⟨docs, hdocs, rfl⟩⟩
        obtain ⟨v, -, hvw⟩ := exists_left_of_mem (h.array_like (a := ⟨i⟩) (b := ⟨j⟩) hpair) hw
        exact ⟨v, w, hvw, Store.itemDocument_ok.1 hok, mt Store.itemDocument_ok.2 hfail⟩
    | object i =>
        obtain ⟨j, -, -, rfl, -⟩ := h.objects hpair
        obtain ⟨docs, hdocs, -⟩ := Store.documentOf?_object.1 hr
        obtain ⟨e, he, hok, hfail⟩ := exists_differs hdocs
          fun ⟨docs, hdocs⟩ => hnot ⟨_, Store.documentOf?_object.2 ⟨docs, hdocs, rfl⟩⟩
        obtain ⟨f, -, hfe⟩ := exists_left_of_mem (h.object_like (a := ⟨i⟩) (b := ⟨j⟩) hpair) he
        exact ⟨f.2, e.2, hfe.2, Store.memberDocument_ok.1 hok, mt Store.memberDocument_ok.2 hfail⟩
  obtain ⟨v, w, hlike, ⟨r, hr⟩, hnot⟩ := hinner
  rcases paired_or_flat hlike with ⟨y, hy, rfl⟩ | ⟨harray, hobject⟩
  · exact ⟨y, hy, ⟨r, hr⟩, hnot⟩
  · exact absurd ⟨r, (Store.documentOf?_flat harray hobject S d).trans hr⟩ hnot

/-- The number of cells bounds the depth of documents. -/
theorem documentOf?_size (h : Heap T β S) (hlike : v.Like β w) (hr : S.documentOf? d w = .ok r) :
    S.documentOf? (S.arrays.size + S.objects.size) w = .ok r := by
  have hnumber : ∀ z, Paired β z → S.number z < S.arrays.size + S.objects.size := by
    rintro (j | j) ⟨x, hpair⟩ <;> have := h.has_right hpair <;>
      simp only [Store.number, Store.Has] at this ⊢ <;> omega
  have hinjective : ∀ y z, Paired β y → Paired β z → S.number y = S.number z → y = z := by
    rintro (i | i) (j | j) ⟨x, hx⟩ ⟨x', hx'⟩ heq <;> have hi := h.has_right hx <;>
      have hj := h.has_right hx' <;> simp only [Store.number, Store.Has] at heq hi hj
    · exact congrArg Cell.array heq
    · omega
    · omega
    · exact congrArg Cell.object (by omega)
  have hexists : ∃ r, S.documentOf? (S.arrays.size + S.objects.size) w = .ok r := by
    rcases paired_or_flat hlike with ⟨z, hz, rfl⟩ | ⟨harray, hobject⟩
    · exact exists_at_bound (fun d (z : Cell) => ∃ r, S.documentOf? d z.value = .ok r) (Paired β)
        S.number _ hnumber hinjective (fun d z hread => hread.imp fun r => Store.documentOf?_succ)
        (fun d z hgood hread hnot => hread.elim fun r hr => h.documentOf?_step hgood hr hnot) hz ⟨r, hr⟩
    · exact ⟨r, (Store.documentOf?_flat harray hobject S _).trans hr⟩
  obtain ⟨r', hr'⟩ := hexists
  have hsame : r' = r := by
    have hle := Store.documentOf?_mono (Nat.le_max_left (S.arrays.size + S.objects.size) d) hr'
    have hle' := Store.documentOf?_mono (Nat.le_max_right (S.arrays.size + S.objects.size) d) hr
    exact Except.ok.inj (hle.symm.trans hle')
  rw [← hsame]
  exact hr'

/-- Values that are alike have the same document. -/
theorem document?_eq (h : Heap T β S) (hlike : v.Like β w) (hr : T.document? v = .ok r) :
    S.document? w = .ok r := Store.documentOf?_succ (h.documentOf?_size hlike (h.documentOf?_eq hlike hr))

theorem document_eq {j : Json} (h : Heap T β S) (hlike : v.Like β w) (hj : T.document v = .ok j) :
    S.document w = .ok j := by
  unfold Store.document at hj ⊢
  cases hr : T.document? v with
  | error e => rw [hr] at hj; cases hj
  | ok r => rwa [h.document?_eq hlike hr, ← hr]

end Heap

end FieldScript
