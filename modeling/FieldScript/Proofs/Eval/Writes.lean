import FieldScript.Proofs.Eval.Steps

/-!
# Changes that both runs make

Writing a property changes a cell of each store. If the two cells are paired and what is written is
alike, the stores stay paired. The first run may not be ahead of such a change.

* `Act.Writes`: actions that change two paired stores alike.
* `Value.set_writes`, `Value.erase_writes`: properties of values.
* `Sim.write`, `Sim.assign`: changes as parts of two runs.
-/

namespace FieldScript

/-! ## Actions that change cells -/

/-- A store with other contents in the same cells. -/
structure Store.Alters (s t : Store) : Prop where
  frames : t.frames = s.frames
  journal : t.journal = s.journal
  cells : ∀ x, t.Has x ↔ s.Has x

namespace Store

theorem Alters.refl (s : Store) : s.Alters s := ⟨rfl, rfl, fun _ => Iff.rfl⟩

theorem alters_modifyObject (s : Store) (o : ObjectRef) (f : List (String × Value) → List (String × Value)) :
    s.Alters (s.modifyObject o f) := by
  refine ⟨rfl, rfl, fun x => ?_⟩
  cases x <;> simp [Has, modifyObject]

theorem alters_modifyArray (s : Store) (a : ArrayRef) (f : Array Value → Array Value) :
    s.Alters (s.modifyArray a f) := by
  refine ⟨rfl, rfl, fun x => ?_⟩
  cases x <;> simp [Has, modifyArray]

/-- A store that holds what it refers to still does so after a change that keeps its cells. -/
theorem Alters.closed {s t : Store} (h : s.Alters t) (hheap : Heap t s.self t) : t.Closed := by
  have hself : t.self = s.self := by
    funext x z
    exact propext (and_congr_right fun _ => h.cells x)
  unfold Closed
  rw [hself]
  exact hheap

end Store

namespace Heap

variable {A S : Store} {β : Pairing}

/-- Paired objects may change if their entries stay alike. -/
theorem modifyObject {a b : ObjectRef} {f g : List (String × Value) → List (String × Value)}
    (h : Heap A β S) (hpair : β (.object a.index) (.object b.index))
    (hlike : ∀ {es fs : List (String × Value)}, es.Forall₂ (Value.LikeEntry β) fs →
      (f es).Forall₂ (Value.LikeEntry β) (g fs)) :
    Heap (A.modifyObject a f) β (S.modifyObject b g) where
  functional := h.functional
  injective := h.injective
  arrays hpair' := h.arrays hpair'
  objects {i z} hpair' := by
    obtain ⟨j, entries, entries', rfl, hi, hj, hentries⟩ := h.objects hpair'
    by_cases heq : a.index = i
    · subst heq
      cases h.functional hpair hpair'
      refine ⟨b.index, f entries, g entries', rfl, ?_, ?_, hlike hentries⟩
      · simp [Store.modifyObject, Array.getElem?_modify, hi]
      · simp [Store.modifyObject, Array.getElem?_modify, hj]
    · have hne : b.index ≠ j := by
        rintro rfl
        exact heq (Cell.object.inj (h.injective hpair hpair'))
      refine ⟨j, entries, entries', rfl, ?_, ?_, hentries⟩
      · simp [Store.modifyObject, Array.getElem?_modify, heq, hi]
      · simp [Store.modifyObject, Array.getElem?_modify, hne, hj]

/-- Paired arrays may change if their elements stay alike. -/
theorem modifyArray {a b : ArrayRef} {f g : Array Value → Array Value} (h : Heap A β S)
    (hpair : β (.array a.index) (.array b.index))
    (hlike : ∀ {vs ws : Array Value}, vs.toList.Forall₂ (Value.Like β) ws.toList →
      (f vs).toList.Forall₂ (Value.Like β) (g ws).toList) :
    Heap (A.modifyArray a f) β (S.modifyArray b g) where
  functional := h.functional
  injective := h.injective
  objects hpair' := h.objects hpair'
  arrays {i z} hpair' := by
    obtain ⟨j, items, items', rfl, hi, hj, hitems⟩ := h.arrays hpair'
    by_cases heq : a.index = i
    · subst heq
      cases h.functional hpair hpair'
      refine ⟨b.index, f items, g items', rfl, ?_, ?_, hlike hitems⟩
      · simp [Store.modifyArray, Array.getElem?_modify, hi]
      · simp [Store.modifyArray, Array.getElem?_modify, hj]
    · have hne : b.index ≠ j := by
        rintro rfl
        exact heq (Cell.array.inj (h.injective hpair hpair'))
      refine ⟨j, items, items', rfl, ?_, ?_, hitems⟩
      · simp [Store.modifyArray, Array.getElem?_modify, heq, hi]
      · simp [Store.modifyArray, Array.getElem?_modify, hne, hj]

end Heap

namespace Act

/-- An action that changes the cells of one store, and another that does the same in a second store if the
first one succeeds. -/
def Writes {α δ : Type} (T : Store) (β : Pairing) (S : Store) (a : Act α) (b : Act δ)
    (R : α → δ → Prop) : Prop :=
  ∃ r T', a.run T = (r, T') ∧ ∀ x, r = .ok x → T.Alters T' ∧ ∃ y S', b.run S = (.ok y, S') ∧ S.Alters S' ∧
    Heap T' β S' ∧ R x y

namespace Writes

variable {α γ δ ε : Type} {T S : Store} {β : Pairing} {a : Act α} {b : Act δ} {R : α → δ → Prop}

theorem of_reads (hheap : Heap T β S) (h : Reads T S a b R) : Writes T β S a b R := by
  obtain ⟨r, hrun, hok⟩ := h
  refine ⟨r, T, hrun, fun x hx => ⟨Store.Alters.refl T, ?_⟩⟩
  obtain ⟨y, hy, hxy⟩ := hok x hx
  exact ⟨y, S, hy, Store.Alters.refl S, hheap, hxy⟩

theorem bind {f : α → Act γ} {g : δ → Act ε} {Q : γ → ε → Prop} (h : Reads T S a b R)
    (hrest : ∀ x y, R x y → Writes T β S (f x) (g y) Q) : Writes T β S (a >>= f) (b >>= g) Q := by
  obtain ⟨r, hrun, hok⟩ := h
  cases r with
  | error e => exact ⟨.error e, T, run_bind_error hrun, fun _ h => nomatch h⟩
  | ok x =>
      obtain ⟨y, hy, hxy⟩ := hok x rfl
      obtain ⟨r', T', hrun', hok'⟩ := hrest x y hxy
      refine ⟨r', T', (run_bind_ok hrun).trans hrun', fun z hz => ?_⟩
      obtain ⟨halters, u, S', hu, hrest'⟩ := hok' z hz
      exact ⟨halters, u, S', (run_bind_ok hy).trans hu, hrest'⟩

theorem get_bind {f : Store → Act γ} {g : Store → Act ε} {Q : γ → ε → Prop}
    (h : Writes T β S (f T) (g S) Q) :
    Writes T β S ((get : Act Store) >>= f) ((get : Act Store) >>= g) Q := h

theorem modify {f g : Store → Store} (hleft : T.Alters (f T)) (hright : S.Alters (g S))
    (hheap : Heap (f T) β (g S)) : Writes T β S (modify f : Act Unit) (modify g) Eq := by
  refine ⟨.ok (), f T, rfl, ?_⟩
  rintro _ ⟨⟩
  exact ⟨hleft, (), g S, rfl, hright, hheap, rfl⟩

end Writes

end Act

open Act (Reads Writes)

/-! ## Properties -/

section

variable {β : Pairing} {v w : Value} {es fs : List (String × Value)} {vs ws : Array Value}

theorem Entries.set_like (key : String) (hvw : v.Like β w) (h : es.Forall₂ (Value.LikeEntry β) fs) :
    (Entries.set key v es).Forall₂ (Value.LikeEntry β) (Entries.set key w fs) := by
  induction h with
  | nil => exact .cons ⟨rfl, hvw⟩ .nil
  | @cons e f es fs hef h ih =>
      obtain ⟨name, v'⟩ := e
      obtain ⟨name', w'⟩ := f
      obtain ⟨rfl, hlike⟩ := hef
      unfold Entries.set
      dsimp only
      split
      · exact .cons ⟨rfl, hvw⟩ h
      · exact .cons ⟨rfl, hlike⟩ ih

theorem Entries.erase_like (key : String) (h : es.Forall₂ (Value.LikeEntry β) fs) :
    (Entries.erase key es).Forall₂ (Value.LikeEntry β) (Entries.erase key fs) := by
  induction h with
  | nil => exact .nil
  | @cons e f es fs hef h ih =>
      obtain ⟨name, v'⟩ := e
      obtain ⟨name', w'⟩ := f
      obtain ⟨rfl, hlike⟩ := hef
      unfold Entries.erase
      dsimp only
      split
      · exact h
      · exact .cons ⟨rfl, hlike⟩ ih

theorem Entries.setAll_like {es' fs' : List (String × Value)} (h : es.Forall₂ (Value.LikeEntry β) fs)
    (h' : es'.Forall₂ (Value.LikeEntry β) fs') :
    (Entries.setAll es es').Forall₂ (Value.LikeEntry β) (Entries.setAll fs fs') := by
  induction h' generalizing es fs with
  | nil => exact h
  | @cons e f es' fs' hef _ ih =>
      obtain ⟨name, v'⟩ := e
      obtain ⟨name', w'⟩ := f
      obtain ⟨rfl, hlike⟩ := hef
      exact ih (Entries.set_like name hlike h)

theorem size_like (h : vs.toList.Forall₂ (Value.Like β) ws.toList) : ws.size = vs.size := by
  simpa using h.length_eq.symm

theorem replicate_like (n : Nat) :
    (List.replicate n Value.undefined).Forall₂ (Value.Like β) (List.replicate n Value.undefined) :=
  List.forall₂_same.2 fun v hv => by
    rw [List.eq_of_mem_replicate hv]
    exact .undefined

theorem resized_like (n : Nat) (h : vs.toList.Forall₂ (Value.Like β) ws.toList) :
    (resized vs n).toList.Forall₂ (Value.Like β) (resized ws n).toList := by
  unfold resized
  rw [size_like h]
  split
  · have htake : ∀ items : Array Value, (items.take n).toList = items.toList.take n := fun items => by simp
    rw [htake, htake]
    exact List.forall₂_take n h
  · rw [Array.toList_append, Array.toList_append, Array.toList_replicate]
    exact List.rel_append h (replicate_like _)

theorem push_like (h : vs.toList.Forall₂ (Value.Like β) ws.toList) (hvw : v.Like β w) :
    (vs.push v).toList.Forall₂ (Value.Like β) (ws.push w).toList := by
  rw [Array.toList_push, Array.toList_push]
  exact List.rel_append h (.cons hvw .nil)

theorem set_like {l l' : List Value} (h : l.Forall₂ (Value.Like β) l') (i : Nat) (hvw : v.Like β w) :
    (l.set i v).Forall₂ (Value.Like β) (l'.set i w) := by
  induction h generalizing i with
  | nil => exact .nil
  | cons hab h ih =>
      cases i with
      | zero => exact .cons hvw h
      | succ i => exact .cons hab (ih i)

theorem setIfInBounds_like (h : vs.toList.Forall₂ (Value.Like β) ws.toList) (i : Nat) (hvw : v.Like β w) :
    (vs.setIfInBounds i v).toList.Forall₂ (Value.Like β) (ws.setIfInBounds i w).toList := by
  rw [Array.toList_setIfInBounds, Array.toList_setIfInBounds]
  exact set_like h i hvw

end

namespace Value

variable {T S : Store} {β : Pairing} {v w item item' : Value}

theorem arrayLength_reads (x : Float) : Reads T S (arrayLength x) (arrayLength x) Eq := by
  unfold arrayLength
  split
  · exact .pure rfl
  · exact .raise

theorem set_writes (hheap : Heap T β S) (hvw : v.Like β w) (hitem : item.Like β item') (key : String) :
    Writes T β S (v.set key item) (w.set key item') Eq := by
  cases hvw with
  | object hpair =>
      exact .modify (T.alters_modifyObject _ _) (S.alters_modifyObject _ _)
        (hheap.modifyObject hpair fun h => Entries.set_like key hitem h)
  | array hpair =>
      rename_i a b
      have hsize : (S.array b).size = (T.array a).size := size_like (hheap.array_like hpair)
      unfold set
      dsimp only
      split
      · refine .bind (R := Eq) (.read fun x hx => ⟨x, hheap.numberOf_eq (.some hpair) hitem hx, rfl⟩) ?_
        rintro x _ rfl
        refine .bind (arrayLength_reads x) ?_
        rintro n _ rfl
        exact .modify (T.alters_modifyArray _ _) (S.alters_modifyArray _ _)
          (hheap.modifyArray hpair fun h => resized_like n h)
      · cases arrayIndex? key with
        | none => exact .of_reads hheap (.pure rfl)
        | some i =>
            refine .get_bind ?_
            rw [hsize]
            split
            · split
              · exact .of_reads hheap .raise
              · exact .modify (T.alters_modifyArray _ _) (S.alters_modifyArray _ _)
                  (hheap.modifyArray hpair fun h => push_like (resized_like i h) hitem)
            · exact .modify (T.alters_modifyArray _ _) (S.alters_modifyArray _ _)
                (hheap.modifyArray hpair fun h => setIfInBounds_like h i hitem)
  | atom v hcell hpromise =>
      cases v with
      | undefined =>
          exact .of_reads hheap (.bind (toText_reads hheap .undefined) fun _ _ _ => .raise)
      | null => exact .of_reads hheap (.bind (toText_reads hheap (.atom _ rfl rfl)) fun _ _ _ => .raise)
      | object o => cases hcell
      | array a => cases hcell
      | _ => exact .of_reads hheap (.pure rfl)
  | method m h => exact .of_reads hheap (.pure rfl)
  | callback m h => exact .of_reads hheap (.pure rfl)

theorem erase_writes (hheap : Heap T β S) (hvw : v.Like β w) (key : String) :
    Writes T β S (v.erase key) (w.erase key) Eq := by
  cases hvw with
  | object hpair =>
      exact .modify (T.alters_modifyObject _ _) (S.alters_modifyObject _ _)
        (hheap.modifyObject hpair fun h => Entries.erase_like key h)
  | atom v hcell hpromise =>
      cases v with
      | object o => cases hcell
      | _ => exact .of_reads hheap (.pure rfl)
  | _ => exact .of_reads hheap (.pure rfl)

end Value

/-! ## Names -/

section

variable {σ : Scope} {name : String} {s : Store} {v : Value}

theorem Scope.assign_free (h : Scope.find? s name σ = none) : (σ.assign name v).run s = (.ok false, s) := by
  induction σ with
  | nil => rfl
  | cons f σ ih =>
      unfold Scope.find? at h
      cases hf : (s.frame f).lookup name with
      | some b => simp [hf] at h
      | none =>
          rw [hf] at h
          unfold Scope.assign
          have hget : (get : Act Store).run s = (.ok s, s) := rfl
          rw [Act.run_bind_ok hget, hf]
          exact ih h

theorem Scope.assign_constant {b : Binding} (h : Scope.find? s name σ = some b) (hconstant : b.constant = true) :
    (σ.assign name v).run s = (.error (.raised (.type .constantAssigned)), s) := by
  induction σ with
  | nil => cases h
  | cons f σ ih =>
      unfold Scope.find? at h
      have hget : (get : Act Store).run s = (.ok s, s) := rfl
      unfold Scope.assign
      rw [Act.run_bind_ok hget]
      cases hf : (s.frame f).lookup name with
      | some b' =>
          simp only [hf, Option.some.injEq] at h
          subst h
          dsimp only
          rw [if_pos hconstant]
          rfl
      | none =>
          rw [hf] at h
          exact ih h

namespace Setting

variable {c : Setting}

/-- A name that nothing binds is assigned as outside of all scopes. -/
theorem assign_free (h : Scope.find? s name σ = none) :
    (c.assign name v σ).run s = (c.assign name v []).run s := by
  have houtside : (Scope.assign [] name v).run s = (.ok false, s) := rfl
  unfold assign
  rw [Act.run_bind_ok (Scope.assign_free h), Act.run_bind_ok houtside]

theorem assign_constant {b : Binding} (h : Scope.find? s name σ = some b) (hconstant : b.constant = true) :
    (c.assign name v σ).run s = (.error (.raised (.type .constantAssigned)), s) := by
  unfold assign
  exact Act.run_bind_error (Scope.assign_constant h hconstant)

theorem assign_writes {T S : Store} {β : Pairing} {w : Value} (hheap : Heap T β S)
    (hdata : β (.object c.data.index) (.object c.data.index)) (hvw : v.Like β w) (name : String) :
    Writes T β S (c.assign name v []) (c.assign name w []) Eq := by
  have hassign : ∀ u, c.assign name u [] = if c.capabilities.contains name then
      Act.typeFault (.capabilityAssigned name)
    else if c.args.contains name then modify fun s => s.modifyObject c.data (Entries.set name u)
    else Act.raise (.unbound name) := fun u => rfl
  rw [hassign v, hassign w]
  split
  · exact .of_reads hheap .raise
  · split
    · exact .modify (T.alters_modifyObject _ _) (S.alters_modifyObject _ _)
        (hheap.modifyObject hdata fun h => Entries.set_like name hvw h)
    · exact .of_reads hheap .raise

end Setting

end

namespace Scene.Sim

variable {scene : Scene} {strict : Bool} {γ α : Type} {n : Nat} {T : Store} {Γ : Kind γ} {g₀ : γ} {κ : Kind α}

/-- A change that both runs make. -/
theorem write (f : γ → Act α) (hsound : scene.Sound T) (hheld : Γ.Held T g₀)
    (h : ∀ β S g, Heap T β S → β (.object scene.setting.data.index) (.object scene.setting.data.index) →
      Γ.like β g₀ g → Writes T β S (f g₀) (f g) (κ.like β)) :
    scene.Sim T n n ⟨true, false⟩ [] (Comp.ofAct (f g₀)) Γ g₀ (fun _ g _ => Comp.ofAct (f g)) κ := by
  obtain ⟨r, T', hr, hok⟩ := h T.self T g₀ hsound.closed ⟨rfl, hsound.data⟩ hheld
  have hrun : Comp.ofAct (f g₀) T = .done r T' := by
    unfold Comp.ofAct
    rw [hr]
  refine ⟨r, T', hrun, fun a ha => ?_⟩
  obtain ⟨halters, b, S', hb, -, hclosed, hlike⟩ := hok a ha
  rw [hr, ha] at hb
  cases hb
  have hwithin : T.Within T' := fun x hx => (halters.cells x).2 hx
  have hheld' : κ.Held T' a := κ.mono (Store.self_mono hwithin) hlike
  refine ⟨⟨halters.frames.trans hsound.frames, halters.closed hclosed, hwithin _ hsound.data⟩, hwithin, hheld',
    T, fun _ => False, [], ?_⟩
  refine ⟨Nat.le_refl n, Store.Extends.refl T, hwithin, (fun hw => nomatch hw), fun _ s hs => ?_,
    fun _ => ⟨rfl, rfl, rfl⟩, fun _ hx => hx.elim, (fun b hb => nomatch hb), front_nil, ?_⟩
  · rwa [halters.journal]
  · rintro A A' j j' β S σ g ⟨⟩ ⟨⟩ hat - honly hlike
    obtain ⟨r', T'', hr', hok'⟩ := h β S g hat.heap hat.data hlike
    cases hr.symm.trans hr'
    obtain ⟨-, b, S', hb, halters', hheap, hlike'⟩ := hok' a ha
    have hkeeps : Keeps 0 0 σ S S' := Keeps.of_frames halters'.frames
    refine ⟨β, S', b, Reaches.act hb, hat.keep hheap (fun _ _ h => h) ?_ hkeeps, fun _ _ h => h,
      fun x z h => .inl h, hkeeps, hlike'⟩
    rw [halters'.journal]
    exact hat.hears

/-- An assignment to a name that is no temporary. -/
theorem assign (hlaw : scene.Lawful strict) {name : String} (hname : Ordinary name) (F : γ → Value)
    (hsound : scene.Sound T) (hheld : Γ.Held T g₀) (h : ∀ β g, Γ.like β g₀ g → (F g₀).Like β (F g)) :
    scene.Sim T n n ⟨true, false⟩ [] (Comp.ofAct (scene.setting.assign name (F g₀) scene.env)) Γ g₀
      (fun _ g σ => Comp.ofAct (scene.setting.assign name (F g) σ)) (Kind.same Unit) := by
  cases hbinding : scene.binding? name with
  | some b =>
      have hrun : Comp.ofAct (scene.setting.assign name (F g₀) scene.env) T =
          .done (.error (.raised (.type .constantAssigned))) T := by
        unfold Comp.ofAct
        rw [Setting.assign_constant ((hsound.find? name).trans hbinding) (hlaw.constant hbinding)]
      exact fail hrun
  | none =>
      have hwrite : scene.Sim T n n ⟨true, false⟩ [] (Comp.ofAct (scene.setting.assign name (F g₀) [])) Γ g₀
          (fun _ g _ => Comp.ofAct (scene.setting.assign name (F g) [])) (Kind.same Unit) :=
        write (fun g => scene.setting.assign name (F g) []) hsound hheld fun β S g hheap hdata hlike =>
          Setting.assign_writes hheap hdata (h β g hlike) name
      refine hwrite.rerun ?_ ?_
      · exact ofAct_congr (Setting.assign_free ((hsound.find? name).trans hbinding))
      · intro A j β S σ g hat _ m
        exact ofAct_congr (Setting.assign_free ((hat.names name hname).trans hbinding))

end Scene.Sim

end FieldScript
