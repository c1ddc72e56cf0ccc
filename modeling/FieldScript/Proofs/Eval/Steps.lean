import FieldScript.Proofs.Eval.Parts

/-!
# Steps that both runs take

The steps of evaluation that only read or make new cells, as parts of two runs. They have no
declarations in front, and the first run may be ahead of them.

* `Sim.read`: an action that only reads.
* `Sim.newArray`, `Sim.newObject`, `Sim.ofJson`: new cells on both sides get paired.
* `Sim.lookup`: the value of a name that is no temporary.
-/

namespace FieldScript

namespace Scene.Sim

variable {scene : Scene} {γ α : Type} {n : Nat} {T : Store} {Γ : Kind γ} {g₀ : γ} {x : Comp α}
  {y : Nat → γ → Scope → Comp α} {κ : Kind α}

/-- A step that makes new cells at most. -/
theorem steady {r : Except Halt α} {T' : Store} (hrun : x T = .done r T')
    (hok : ∀ a, r = .ok a → scene.Sound T' ∧ T.Extends T' ∧ T'.journal = T.journal ∧ κ.Held T' a ∧
      ∀ A j β S σ g, T'.Extends A → scene.At A j β S σ → (∀ x z, β x z → ¬T.Between T' x) →
        Γ.like β g₀ g → ∃ β' S' b, Reaches scene.run (fun m => y m g σ S) (.ok b) S' ∧ Heap A β' S' ∧
          β ≤ β' ∧ (∀ x z, β' x z → β x z ∨ T.Between T' x) ∧ S'.journal = S.journal ∧
          S'.frames = S.frames ∧ κ.like β' a b) :
    scene.Sim T n n Deeds.none [] x Γ g₀ y κ := by
  refine ⟨r, T', hrun, fun a ha => ?_⟩
  obtain ⟨hsound, hext, hjournal, hheld, hrest⟩ := hok a ha
  refine ⟨hsound, hext.within, hheld, T, fun _ => False, [], ?_⟩
  refine ⟨Nat.le_refl n, Store.Extends.refl T, hext.within, fun _ => hext, fun _ s hs => ?_,
    fun _ => ⟨rfl, rfl, rfl⟩, fun _ hx => hx.elim, (fun b hb => nomatch hb), front_nil, ?_⟩
  · rwa [hjournal]
  · rintro A A' j j' β S σ g ⟨hreach⟩ ⟨⟩ hat - honly hlike
    obtain ⟨β', S', b, hrun', hheap, hβ, hnew, hjournal', hframes, hlike'⟩ :=
      hrest A j β S σ g hreach hat honly hlike
    have hkeeps : Keeps 0 0 σ S S' := Keeps.of_frames hframes
    refine ⟨β', S', b, hrun', hat.keep hheap hβ ?_ hkeeps, hβ, hnew, hkeeps, hlike'⟩
    rw [hjournal']
    exact hat.hears

/-- A result that is known. -/
theorem pure (F : γ → α) (hsound : scene.Sound T) (hheld : Γ.Held T g₀)
    (h : ∀ β g, Γ.like β g₀ g → κ.like β (F g₀) (F g)) :
    scene.Sim T n n Deeds.none [] (Pure.pure (F g₀)) Γ g₀ (fun _ g _ => Pure.pure (F g)) κ := by
  have hrun : (Pure.pure (F g₀) : Comp α) T = .done (.ok (F g₀)) T := rfl
  refine steady hrun ?_
  rintro _ ⟨⟩
  refine ⟨hsound, Store.Extends.refl T, rfl, h _ _ hheld, ?_⟩
  intro A j β S σ g _ hat _ hlike
  exact ⟨β, S, F g, Reaches.done, hat.heap, fun _ _ h => h, fun x z h => .inl h, rfl, rfl, h β g hlike⟩

/-- A value that refers to nothing. -/
theorem atom (v : Value) (hcell : v.cell? = none) (hpromise : v.ofPromise = false)
    (hsound : scene.Sound T) (hheld : Γ.Held T g₀) :
    scene.Sim T n n Deeds.none [] (Pure.pure v) Γ g₀ (fun _ _ _ => Pure.pure v) Kind.value := by
  have hlike : ∀ β g, Γ.like β g₀ g → Kind.value.like β v v := fun β _ _ => .atom v hcell hpromise
  exact pure (fun _ => v) hsound hheld hlike

/-- An action that only reads, the arguments of the field among other things. -/
theorem readData (f : γ → Act α) (hsound : scene.Sound T) (hheld : Γ.Held T g₀)
    (h : ∀ β S g, Heap T β S → β (.object scene.setting.data.index) (.object scene.setting.data.index) →
      Γ.like β g₀ g → Act.Reads T S (f g₀) (f g) (κ.like β)) :
    scene.Sim T n n Deeds.none [] (Comp.ofAct (f g₀)) Γ g₀ (fun _ g _ => Comp.ofAct (f g)) κ := by
  obtain ⟨r, hr, hok⟩ := h T.self T g₀ hsound.closed ⟨rfl, hsound.data⟩ hheld
  have hrun : Comp.ofAct (f g₀) T = .done r T := by
    unfold Comp.ofAct
    rw [hr]
  refine steady hrun fun a ha => ?_
  have hheld' : κ.Held T a := by
    obtain ⟨b, hb, hlike⟩ := hok a ha
    rw [hr, ha] at hb
    cases hb
    exact hlike
  refine ⟨hsound, Store.Extends.refl T, rfl, hheld', ?_⟩
  intro A j β S σ g hext hat _ hlike
  obtain ⟨r', hr', hok'⟩ := h (β.within T) S g (hat.heap.within hsound.closed hext)
    ⟨hat.data, hsound.data⟩ (Γ.within hheld hlike)
  cases hr.symm.trans hr'
  obtain ⟨b, hb, hlike'⟩ := hok' a ha
  exact ⟨β, S, b, Reaches.act hb, hat.heap, fun _ _ h => h, fun x z h => .inl h, rfl, rfl,
    κ.mono Pairing.within_le hlike'⟩

/-- An action that only reads. -/
theorem read (f : γ → Act α) (hsound : scene.Sound T) (hheld : Γ.Held T g₀)
    (h : ∀ β S g, Heap T β S → Γ.like β g₀ g → Act.Reads T S (f g₀) (f g) (κ.like β)) :
    scene.Sim T n n Deeds.none [] (Comp.ofAct (f g₀)) Γ g₀ (fun _ g _ => Comp.ofAct (f g)) κ :=
  readData f hsound hheld fun β S g hheap _ => h β S g hheap

/-- An error. -/
theorem fail {n' : Nat} {deeds : Deeds} {D : List Stmt} {e : Halt} {T' : Store}
    (h : x T = .done (.error e) T') : scene.Sim T n n' deeds D x Γ g₀ y κ := ⟨.error e, T', h, fun _ ha => nomatch ha⟩

/-! ## New cells -/

theorem newArray (F : γ → List Value) (hsound : scene.Sound T) (hheld : Γ.Held T g₀)
    (h : ∀ β g, Γ.like β g₀ g → (F g₀).Forall₂ (Value.Like β) (F g)) :
    scene.Sim T n n Deeds.none [] (liftM (Change.newArray (F g₀).toArray)) Γ g₀
      (fun _ g _ => liftM (Change.newArray (F g).toArray)) Kind.value := by
  have hrun : (liftM (Change.newArray (F g₀).toArray) : Comp Value) T =
      .done (.ok (.array ⟨T.arrays.size⟩)) (T.addArray (F g₀).toArray).2 := rfl
  refine steady hrun ?_
  rintro _ ⟨⟩
  have hitems : ∀ v ∈ (F g₀).toArray.toList, T.Holds v := by
    rw [List.toList_toArray]
    exact fun v hv => List.forall₂_same.1 (h T.self g₀ hheld) v hv
  have hext : T.Extends (T.addArray (F g₀).toArray).2 := Store.extends_addArray _
  have hnew : T.Between (T.addArray (F g₀).toArray).2 (.array T.arrays.size) :=
    ⟨by simp [Store.Has, Store.addArray], Nat.lt_irrefl _⟩
  refine ⟨⟨hsound.frames, hsound.closed.addArray hitems, hext.within _ hsound.data⟩, hext, rfl,
    .array ⟨rfl, hnew.1⟩, ?_⟩
  intro A j β S σ g hA hat hnone hlike
  have hitems' : (F g₀).toArray.toList.Forall₂ (Value.Like β) (F g).toArray.toList := by
    rw [List.toList_toArray, List.toList_toArray]
    exact h β g hlike
  have hpaired := hat.heap.addArray (fun z hz => hnone _ z hz hnew)
    (hA.arrays (Store.getElem?_addArray (F g₀).toArray)) hitems'
  refine ⟨_, _, .array ⟨S.arrays.size⟩, Reaches.done, hpaired, Pairing.le_add, ?_, rfl, rfl,
    .array Pairing.add_self⟩
  rintro x z (hx | ⟨rfl, -⟩)
  · exact .inl hx
  · exact .inr hnew

theorem newObject (F : γ → List (String × Value)) (hsound : scene.Sound T) (hheld : Γ.Held T g₀)
    (h : ∀ β g, Γ.like β g₀ g → (F g₀).Forall₂ (Value.LikeEntry β) (F g)) :
    scene.Sim T n n Deeds.none [] (liftM (Change.newObject (F g₀))) Γ g₀
      (fun _ g _ => liftM (Change.newObject (F g))) Kind.value := by
  have hrun : (liftM (Change.newObject (F g₀)) : Comp Value) T =
      .done (.ok (.object ⟨T.objects.size⟩)) (T.addObject (F g₀)).2 := rfl
  refine steady hrun ?_
  rintro _ ⟨⟩
  have hentries : ∀ e ∈ F g₀, T.Holds e.2 := fun e he => (List.forall₂_same.1 (h T.self g₀ hheld) e he).2
  have hext : T.Extends (T.addObject (F g₀)).2 := Store.extends_addObject _
  have hnew : T.Between (T.addObject (F g₀)).2 (.object T.objects.size) :=
    ⟨by simp [Store.Has, Store.addObject], Nat.lt_irrefl _⟩
  refine ⟨⟨hsound.frames, hsound.closed.addObject hentries, hext.within _ hsound.data⟩, hext, rfl,
    .object ⟨rfl, hnew.1⟩, ?_⟩
  intro A j β S σ g hA hat hnone hlike
  have hpaired := hat.heap.addObject (fun z hz => hnone _ z hz hnew)
    (hA.objects (Store.getElem?_addObject (F g₀))) (h β g hlike)
  refine ⟨_, _, .object ⟨S.objects.size⟩, Reaches.done, hpaired, Pairing.le_add, ?_, rfl, rfl,
    .object Pairing.add_self⟩
  rintro x z (hx | ⟨rfl, -⟩)
  · exact .inl hx
  · exact .inr hnew

theorem liftM_ofJson_array (items : List Json) : (liftM (Value.ofJson (.array items)) : Comp Value) =
    liftM (Value.ofJsonItems items) >>= fun vs => liftM (Change.newArray vs.toArray) := by
  rw [Value.ofJson]
  rfl

theorem liftM_ofJson_object (members : List (String × Json)) :
    (liftM (Value.ofJson (.object members)) : Comp Value) =
      liftM (Value.ofJsonMembers members) >>= fun es => liftM (Change.newObject es) := by
  rw [Value.ofJson]
  rfl

theorem liftM_ofJsonItems_cons (j : Json) (rest : List Json) :
    (liftM (Value.ofJsonItems (j :: rest)) : Comp (List Value)) =
      liftM (Value.ofJson j) >>= fun v => liftM (Value.ofJsonItems rest) >>= fun vs =>
        Pure.pure (v :: vs) := by
  rw [Value.ofJsonItems]
  rfl

theorem liftM_ofJsonMembers_cons (name : String) (j : Json) (rest : List (String × Json)) :
    (liftM (Value.ofJsonMembers ((name, j) :: rest)) : Comp (List (String × Value))) =
      liftM (Value.ofJson j) >>= fun v => liftM (Value.ofJsonMembers rest) >>= fun es =>
        Pure.pure ((name, v) :: es) := by
  rw [Value.ofJsonMembers]
  rfl

mutual

/-- A new value with the content of a document. -/
theorem ofJson (j : Json) {T : Store} {γ : Type} {Γ : Kind γ} {g₀ : γ} (hsound : scene.Sound T)
    (hheld : Γ.Held T g₀) : scene.Sim T n n Deeds.none [] (liftM (Value.ofJson j)) Γ g₀
      (fun _ _ _ => liftM (Value.ofJson j)) Kind.value := by
  match j with
  | .null => exact atom .null rfl rfl hsound hheld
  | .bool b => exact atom (.bool b) rfl rfl hsound hheld
  | .int k => exact atom (.number (Float.ofInt k)) rfl rfl hsound hheld
  | .float x => exact atom (.number x) rfl rfl hsound hheld
  | .string t => exact atom (.string t) rfl rfl hsound hheld
  | .array items =>
      rw [liftM_ofJson_array]
      refine (ofJsonItems items hsound hheld).andThen hheld ?_
      intro vs T₁ _ hsound₁ _ hheld₁
      refine newArray (fun g => g.2) hsound₁ hheld₁ ?_
      exact fun _ _ h => h.2
  | .object members =>
      rw [liftM_ofJson_object]
      refine (ofJsonMembers members hsound hheld).andThen hheld ?_
      intro es T₁ _ hsound₁ _ hheld₁
      refine newObject (fun g => g.2) hsound₁ hheld₁ ?_
      exact fun _ _ h => h.2

/-- New values with the contents of documents. -/
theorem ofJsonItems (js : List Json) {T : Store} {γ : Type} {Γ : Kind γ} {g₀ : γ}
    (hsound : scene.Sound T) (hheld : Γ.Held T g₀) :
    scene.Sim T n n Deeds.none [] (liftM (Value.ofJsonItems js)) Γ g₀
      (fun _ _ _ => liftM (Value.ofJsonItems js)) Kind.value.list := by
  match js with
  | [] => exact pure (κ := Kind.value.list) (fun _ => []) hsound hheld fun _ _ _ => List.Forall₂.nil
  | j :: rest =>
      rw [liftM_ofJsonItems_cons]
      refine (ofJson j hsound hheld).after hheld ?_
      intro v T₁ _ hsound₁ _ hheld₁
      refine (ofJsonItems rest hsound₁ hheld₁).andThen hheld₁ ?_
      intro vs T₂ _ hsound₂ _ hheld₂
      refine pure (fun g => g.1.2 :: g.2) hsound₂ hheld₂ ?_
      exact fun _ _ h => List.Forall₂.cons h.1.2 h.2

/-- New entries with the contents of members. -/
theorem ofJsonMembers (js : List (String × Json)) {T : Store} {γ : Type} {Γ : Kind γ} {g₀ : γ}
    (hsound : scene.Sound T) (hheld : Γ.Held T g₀) :
    scene.Sim T n n Deeds.none [] (liftM (Value.ofJsonMembers js)) Γ g₀
      (fun _ _ _ => liftM (Value.ofJsonMembers js)) Kind.entry.list := by
  match js with
  | [] => exact pure (κ := Kind.entry.list) (fun _ => []) hsound hheld fun _ _ _ => List.Forall₂.nil
  | (name, j) :: rest =>
      rw [liftM_ofJsonMembers_cons]
      refine (ofJson j hsound hheld).after hheld ?_
      intro v T₁ _ hsound₁ _ hheld₁
      refine (ofJsonMembers rest hsound₁ hheld₁).andThen hheld₁ ?_
      intro es T₂ _ hsound₂ _ hheld₂
      refine pure (fun g => (name, g.1.2) :: g.2) hsound₂ hheld₂ ?_
      exact fun _ _ h => List.Forall₂.cons ⟨rfl, h.1.2⟩ h.2

end

end Scene.Sim

/-! ## Names -/

namespace Setting

variable {c : Setting} {name : String} {σ : Scope} {s t : Store}

theorem lookup_bound {b : Binding} (h : Scope.find? s name σ = some b) :
    (c.lookup name σ).run s = (.ok b.value, s) := by
  have hfound : (σ.lookup? name).run s = (.ok (some b.value), s) := by
    show (Except.ok ((Scope.find? s name σ).map (·.value)), s) = _
    rw [h]
    rfl
  unfold lookup
  rw [Act.run_bind_ok hfound]
  rfl

/-- A name that nothing binds means the same as outside of all scopes. -/
theorem lookup_free (h : Scope.find? s name σ = none) :
    (c.lookup name σ).run s = (c.lookup name []).run s := by
  have hfound : (σ.lookup? name).run s = (.ok none, s) := by
    show (Except.ok ((Scope.find? s name σ).map (·.value)), s) = _
    rw [h]
    rfl
  have houtside : (Scope.lookup? [] name).run s = (.ok none, s) := rfl
  unfold lookup
  rw [Act.run_bind_ok hfound, Act.run_bind_ok houtside]

theorem lookup_capability (h : c.capabilities.contains name = true) :
    c.lookup name [] = Pure.pure (.function (.capability name)) := by
  funext s
  show ((if c.capabilities.contains name then _ else _ : Act Value)) s = _
  rw [if_pos h]

theorem lookup_argument (h : c.capabilities.contains name = false) (hargs : c.args.contains name = true) :
    c.lookup name [] = do return (((← get).object c.data).lookup name).getD .undefined := by
  funext s
  show ((if c.capabilities.contains name then _ else if c.args.contains name then _ else _ : Act Value)) s = _
  rw [if_neg (by simp [h]), if_pos hargs]

/-- A name that nothing binds stands for an argument. -/
theorem lookup_entry {v : Value} (hfree : Scope.find? s name σ = none) (h : c.capabilities.contains name = false)
    (hargs : c.args.contains name = true) (hentry : (s.object c.data).lookup name = some v) :
    (c.lookup name σ).run s = (.ok v, s) := by
  rw [lookup_free hfree, lookup_argument h hargs]
  show (Except.ok (((s.object c.data).lookup name).getD .undefined), s) = _
  rw [hentry]
  rfl

theorem typeOfName_ok {v : Value} (h : (c.lookup name σ).run s = (.ok v, t)) :
    (c.typeOfName name σ).run s = (.ok (.string v.typeName), t) := by
  have hlookup : c.lookup name σ s = (.ok v, t) := h
  unfold typeOfName
  simp only [tryCatch, tryCatchThe, MonadExceptOf.tryCatch, ExceptT.tryCatch, ExceptT.run, ExceptT.mk, bind,
    ExceptT.bind, StateT.bind, hlookup]
  rfl

theorem typeOfName_unbound {other : String}
    (h : (c.lookup name σ).run s = (.error (.raised (.unbound other)), t)) :
    (c.typeOfName name σ).run s = (.ok (.string Value.undefined.typeName), t) := by
  have hlookup : c.lookup name σ s = (.error (.raised (.unbound other)), t) := h
  unfold typeOfName
  simp only [tryCatch, tryCatchThe, MonadExceptOf.tryCatch, ExceptT.tryCatch, ExceptT.run, ExceptT.mk, bind,
    ExceptT.bind, StateT.bind, hlookup]
  rfl

section

variable (h : c.capabilities.contains name = false) (hargs : c.args.contains name = false)

include h hargs

theorem lookup_value {v : Value} (hglobal : Global.ofName? name = some (.value v)) :
    c.lookup name [] = Pure.pure v := by
  funext s
  show ((if c.capabilities.contains name then _ else if c.args.contains name then _ else _ : Act Value)) s = _
  rw [if_neg (by simp [h]), if_neg (by rw [hargs]; decide)]
  unfold Global.read?
  rw [hglobal]
  rfl

theorem lookup_group {entries : List (String × Value)}
    (hglobal : Global.ofName? name = some (.group entries)) :
    c.lookup name [] = liftM (Change.newObject entries) := by
  funext s
  show ((if c.capabilities.contains name then _ else if c.args.contains name then _ else _ : Act Value)) s = _
  rw [if_neg (by simp [h]), if_neg (by rw [hargs]; decide)]
  unfold Global.read?
  rw [hglobal]
  rfl

theorem lookup_unknown (hglobal : Global.ofName? name = none) :
    c.lookup name [] = Act.raise (.unbound name) := by
  funext s
  show ((if c.capabilities.contains name then _ else if c.args.contains name then _ else _ : Act Value)) s = _
  rw [if_neg (by simp [h]), if_neg (by rw [hargs]; decide)]
  unfold Global.read?
  rw [hglobal]
  rfl

end

/-- A name outside of all scopes means something in every store or in none. -/
theorem lookup_nil_cases (c : Setting) (name : String) :
    (∀ s, ∃ v t, (c.lookup name []).run s = (.ok v, t)) ∨
      ∀ s, (c.lookup name []).run s = (.error (.raised (.unbound name)), s) := by
  by_cases hcap : c.capabilities.contains name = true
  · refine .inl fun s => ?_
    rw [lookup_capability hcap]
    exact ⟨_, _, rfl⟩
  rw [Bool.not_eq_true] at hcap
  by_cases harg : c.args.contains name = true
  · refine .inl fun s => ?_
    rw [lookup_argument hcap harg]
    exact ⟨_, _, rfl⟩
  rw [Bool.not_eq_true] at harg
  cases hglobal : Global.ofName? name with
  | none =>
      refine .inr fun s => ?_
      rw [lookup_unknown hcap harg hglobal]
      rfl
  | some meaning =>
      refine .inl fun s => ?_
      cases meaning with
      | value v =>
          rw [lookup_value hcap harg hglobal]
          exact ⟨_, _, rfl⟩
      | group entries =>
          rw [lookup_group hcap harg hglobal]
          exact ⟨_, _, rfl⟩

end Setting

/-- The values of global names refer to nothing. -/
theorem Global.value_atom {name : String} {v : Value} (h : Global.ofName? name = some (.value v)) :
    v.cell? = none ∧ v.ofPromise = false := by
  unfold Global.ofName? at h
  dsimp only at h
  split at h <;> cases h <;> exact ⟨rfl, rfl⟩

theorem members_atom {entries : List (String × Builtin)} {e : String × Value} (h : e ∈ members entries) :
    e.2.cell? = none ∧ e.2.ofPromise = false := by
  obtain ⟨b, -, rfl⟩ := List.mem_map.1 h
  exact ⟨rfl, rfl⟩

theorem Global.group_atom {name : String} {entries : List (String × Value)}
    (h : Global.ofName? name = some (.group entries)) :
    ∀ e ∈ entries, e.2.cell? = none ∧ e.2.ofPromise = false := by
  unfold Global.ofName? at h
  dsimp only at h
  split at h <;> cases h <;> intro e he
  · exact members_atom he
  · exact members_atom he
  · exact members_atom he
  · rcases List.mem_append.1 he with he | he
    · exact members_atom he
    · simp only [List.mem_cons, List.not_mem_nil, or_false] at he
      rcases he with rfl | rfl <;> exact ⟨rfl, rfl⟩
  · exact members_atom he
  · exact members_atom he

namespace Scene

variable {scene : Scene} {strict : Bool} {γ : Type} {n : Nat} {T S : Store} {Γ : Kind γ} {g₀ : γ} {name : String}

/-- A name outside of all scopes. -/
theorem Sim.lookup_nil (name : String) (hsound : scene.Sound T) (hheld : Γ.Held T g₀) :
    scene.Sim T n n Deeds.none [] (Comp.ofAct (scene.setting.lookup name [])) Γ g₀
      (fun _ _ _ => Comp.ofAct (scene.setting.lookup name [])) Kind.value := by
  by_cases hcap : scene.setting.capabilities.contains name = true
  · rw [Setting.lookup_capability hcap]
    exact atom (.function (.capability name)) rfl rfl hsound hheld
  rw [Bool.not_eq_true] at hcap
  by_cases harg : scene.setting.args.contains name = true
  · rw [Setting.lookup_argument hcap harg]
    refine readData (fun _ => do return (((← get).object _).lookup name).getD .undefined) hsound hheld ?_
    intro β S g hheap hdata _
    refine Act.Reads.get_bind (Act.Reads.pure ?_)
    exact (Value.lookup_like (hheap.object_like hdata) name).1
  rw [Bool.not_eq_true] at harg
  cases hglobal : Global.ofName? name with
  | none =>
      rw [Setting.lookup_unknown hcap harg hglobal]
      exact fail rfl
  | some meaning =>
      cases meaning with
      | value v =>
          rw [Setting.lookup_value hcap harg hglobal]
          obtain ⟨hcell, hpromise⟩ := Global.value_atom hglobal
          exact atom v hcell hpromise hsound hheld
      | group entries =>
          rw [Setting.lookup_group hcap harg hglobal]
          refine newObject (fun _ => entries) hsound hheld fun β _ _ => ?_
          refine List.forall₂_same.2 fun e he => ⟨rfl, ?_⟩
          obtain ⟨hcell, hpromise⟩ := Global.group_atom hglobal e he
          exact .atom _ hcell hpromise

theorem ofAct_congr {α : Type} {a b : Act α} {s : Store} (h : a.run s = b.run s) :
    Comp.ofAct a s = Comp.ofAct b s := by
  unfold Comp.ofAct
  rw [h]

/-- A name that is no temporary. -/
theorem Sim.lookup (hlaw : scene.Lawful strict) (hname : Ordinary name) (hsound : scene.Sound T)
    (hheld : Γ.Held T g₀) :
    scene.Sim T n n Deeds.none [] (Comp.ofAct (scene.setting.lookup name scene.env)) Γ g₀
      (fun _ _ σ => Comp.ofAct (scene.setting.lookup name σ)) Kind.value := by
  cases hbinding : scene.binding? name with
  | some b =>
      obtain ⟨hcell, hpromise⟩ := hlaw.plain hbinding
      refine (atom b.value hcell hpromise hsound hheld).rerun ?_ ?_
      · exact ofAct_congr (Setting.lookup_bound ((hsound.find? name).trans hbinding))
      · intro A j β S σ g hat _ m
        exact ofAct_congr (Setting.lookup_bound ((hat.names name hname).trans hbinding))
  | none =>
      refine (lookup_nil name hsound hheld).rerun ?_ ?_
      · exact ofAct_congr (Setting.lookup_free ((hsound.find? name).trans hbinding))
      · intro A j β S σ g hat _ m
        exact ofAct_congr (Setting.lookup_free ((hat.names name hname).trans hbinding))

theorem ofAct_typeOfName {c : Setting} {σ : Scope} {s : Store}
    (h : ∃ v t, (c.lookup name σ).run s = (.ok v, t)) :
    Comp.ofAct (c.typeOfName name σ) s =
      (Comp.ofAct (c.lookup name σ) >>= fun v => Pure.pure (.string v.typeName)) s := by
  obtain ⟨v, t, h⟩ := h
  show _ = (Comp.ofAct (c.lookup name σ) s).bind _
  unfold Comp.ofAct
  rw [h, Setting.typeOfName_ok h]
  rfl

/-- The type of a name that is no temporary. -/
theorem Sim.typeOfName (hlaw : scene.Lawful strict) (hname : Ordinary name) (hsound : scene.Sound T)
    (hheld : Γ.Held T g₀) :
    scene.Sim T n n Deeds.none [] (Comp.ofAct (scene.setting.typeOfName name scene.env)) Γ g₀
      (fun _ _ σ => Comp.ofAct (scene.setting.typeOfName name σ)) Kind.value := by
  have hknown : scene.Sim T n n Deeds.none []
      (Comp.ofAct (scene.setting.lookup name scene.env) >>= fun v => Pure.pure (.string v.typeName)) Γ g₀
      (fun _ _ σ => Comp.ofAct (scene.setting.lookup name σ) >>= fun v => Pure.pure (.string v.typeName))
      Kind.value := by
    refine (Sim.lookup hlaw hname hsound hheld).andThen hheld ?_
    intro v T₁ _ hsound₁ _ hheld₁
    refine pure (fun g => Value.string g.2.typeName) hsound₁ hheld₁ ?_
    intro β g hlike
    rw [Value.Like.typeName_eq hlike.2]
    exact Value.Like.string _
  cases hbinding : scene.binding? name with
  | some b =>
      refine hknown.rerun ?_ ?_
      · exact ofAct_typeOfName ⟨_, _, Setting.lookup_bound ((hsound.find? name).trans hbinding)⟩
      · intro A j β S σ g hat _ m
        exact ofAct_typeOfName ⟨_, _, Setting.lookup_bound ((hat.names name hname).trans hbinding)⟩
  | none =>
      have hfree : Scope.find? T name scene.env = none := (hsound.find? name).trans hbinding
      have hfree' : ∀ {A j β S σ}, scene.At A j β S σ → Scope.find? S name σ = none :=
        fun hat => (hat.names name hname).trans hbinding
      rcases scene.setting.lookup_nil_cases name with hcases | hcases
      · refine hknown.rerun ?_ ?_
        · refine ofAct_typeOfName ?_
          rw [Setting.lookup_free hfree]
          exact hcases T
        · intro A j β S σ g hat _ m
          refine ofAct_typeOfName ?_
          rw [Setting.lookup_free (hfree' hat)]
          exact hcases S
      · refine (atom (.string Value.undefined.typeName) rfl rfl hsound hheld).rerun ?_ ?_
        · have hlookup := (Setting.lookup_free hfree).trans (hcases T)
          exact ofAct_congr (Setting.typeOfName_unbound hlookup)
        · intro A j β S σ g hat _ m
          have hlookup := (Setting.lookup_free (hfree' hat)).trans (hcases S)
          exact ofAct_congr (Setting.typeOfName_unbound hlookup)

/-- A value that is no promise settles to itself. -/
theorem settle_like {β : Pairing} {v w : Value} (h : v.Like β w) : Comp.settle w = Pure.pure w := by
  cases h with
  | atom v hcell hpromise => cases v <;> first | rfl | cases hpromise
  | array h => rfl
  | object h => rfl
  | method m h => rfl
  | callback m h => rfl

end Scene

end FieldScript
