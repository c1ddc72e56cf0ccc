import FieldScript.Proofs.Eval.Agreements

/-!
# Assignments that do the same in both runs

The target of an assignment may be a variable, a member, or a pattern that takes a value apart. The value
comes from before, so both runs of an assignment are told for all values that are alike (`Assigns`).

A target that is read and then bound again (`+=`, `++`) is visited once by settling but evaluated twice, so
nothing of it may have moved in front.
-/

namespace FieldScript

/-- A pattern that takes a value apart has no value of its own. -/
theorem Eval.current_fails {c : Context} {σ : Scope} {p : Pattern} {α : Type} (h : ¬p.isSingle = true) (T : Store)
    (f : Value → Comp α) : ∃ r, (Eval.current c p σ >>= f) T = .done (.error r) T := by
  refine ⟨.raised (.type .assignmentTarget), ?_⟩
  cases p with
  | ident id => exact absurd rfl h
  | member e => exact absurd rfl h
  | _ =>
      rw [Eval.current]
      · rfl
      · exact fun _ h => nomatch h
      · exact fun _ h => nomatch h

namespace Scene

variable {scene : Scene} {counts : Bool} {n n₁ n₂ n' : Nat} {a b c : Shape} {D D₁ D₂ : List Stmt} {e e' : Expr}
  {p p' : Pattern} {ps ps' : List Pattern} {props props' : List PatternProp} {k k' : Key}

/-- The assignment of a value to a target. -/
abbrev Assigns (scene : Scene) (n n' : Nat) (shape : Shape) (D : List Stmt) (p p' : Pattern) : Prop :=
  scene.Agrees n n' shape D Kind.value (fun v => Eval.bindPattern scene.reference p v .assign scene.env)
    (fun m v σ => Eval.bindPattern (scene.settled m) p' v .assign σ) Kind.unit

/-- The assignment of values to targets one after another. -/
abbrev AssignsAll (scene : Scene) (n n' : Nat) (shape : Shape) (D : List Stmt) (ps ps' : List Pattern) : Prop :=
  scene.Agrees n n' shape D Kind.value.list
    (fun vs => Eval.bindElements scene.reference ps vs .assign scene.env)
    (fun m vs σ => Eval.bindElements (scene.settled m) ps' vs .assign σ) Kind.unit

/-- The assignment of the entries of a value, given the names that were used before. -/
abbrev AssignsEntries (scene : Scene) (n n' : Nat) (shape : Shape) (D : List Stmt)
    (props props' : List PatternProp) : Prop :=
  scene.Agrees n n' shape D (Kind.value.pair (Kind.same (List String)))
    (fun g => Eval.bindEntries scene.reference props g.1 g.2 .assign scene.env)
    (fun m g σ => Eval.bindEntries (scene.settled m) props' g.1 g.2 .assign σ) Kind.unit

/-- The value that a target has. -/
abbrev Currents (scene : Scene) (n n' : Nat) (shape : Shape) (D : List Stmt) (p p' : Pattern) : Prop :=
  scene.Matches n n' shape D (Eval.current scene.reference p scene.env)
    (fun m σ => Eval.current (scene.settled m) p' σ) Kind.value

/-! ## Reading a target -/

theorem Currents.ident (hlaw : scene.Lawful counts) {id : Ident} (hname : Ordinary id.name) :
    scene.Currents n n Shape.still [] (.ident id) (.ident id) := by
  refine Matches.still fun hsound hheld => ?_
  simp only [Eval.current]
  exact Sim.lookup hlaw hname hsound hheld

theorem Currents.member (h : scene.Yields n n' a D e e') : scene.Currents n n' a D (.member e) (.member e') := by
  refine Matches.mk' h.le h.nothing fun hordered T γ Γ g₀ hsound hheld => ?_
  simp only [Eval.current]
  exact Matches.sim h hordered hsound hheld

/-- An expression that always fails. -/
theorem Chains.fail (hle : n ≤ n') (hnothing : a.hoists = false → D = [])
    (h : ∀ T, ∃ r, Eval.link scene.reference e scene.env T = .done (.error r) T) : scene.Chains n n' a D e e' := by
  refine Matches.mk' hle hnothing fun _ T γ Γ g₀ _ _ => ?_
  obtain ⟨r, hr⟩ := h T
  exact Sim.fail hr

/-! ## Binding a target -/

theorem Assigns.ident (hlaw : scene.Lawful counts) {id : Ident} (hname : Ordinary id.name) :
    scene.Assigns n n Shape.change [] (.ident id) (.ident id) := by
  refine ⟨Nat.le_refl n, fun _ => rfl, fun _ T γ Γ g₀ F hsound hheld hlike => ?_⟩
  simp only [Eval.bindPattern]
  exact Sim.assign hlaw hname F hsound hheld hlike

theorem Assigns.hole : scene.Assigns n n Shape.still [] .hole .hole := by
  refine ⟨Nat.le_refl n, fun _ => rfl, fun _ T γ Γ g₀ F hsound hheld hlike => ?_⟩
  simp only [Eval.bindPattern]
  exact Sim.pure (fun _ => ()) hsound hheld fun _ _ _ => rfl

theorem Assigns.rest (h : scene.Assigns n n' a D p p') : scene.Assigns n n' a D (.rest p) (.rest p') := by
  refine ⟨h.le, h.nothing, fun hordered T γ Γ g₀ F hsound hheld hlike => ?_⟩
  simp only [Eval.bindPattern]
  exact h.sim hordered F hsound hheld hlike

/-- The object and the key of a member that is written or erased. -/
theorem Sim.place {γ α : Type} {T : Store} {Γ : Kind γ} {g₀ : γ} {κ : Kind α} {o o' : Expr}
    (ho : scene.Chains n n₁ a D₁ o o') (hk : scene.Names n₁ n₂ b D₂ k k')
    (hordered : (a.andThen (b.andThen .change)).ordered = true) (hsound : scene.Sound T) (hheld : Γ.Held T g₀)
    (f : γ → Value → String → Act α)
    (hwrites : ∀ {T β S g v w name}, Heap T β S → Γ.like β g₀ g → Value.Like β v w →
      Act.Writes T β S (f g₀ v name) (f g w name) (κ.like β)) :
    scene.Sim T n n₂ (a.andThen (b.andThen .change)).deeds (D₁ ++ D₂)
      (orUndefined (Eval.link scene.reference o scene.env) >>= fun v =>
        Eval.keyName scene.reference k scene.env >>= fun name => Comp.ofAct (f g₀ v name)) Γ g₀
      (fun m g σ => orUndefined (Eval.link (scene.settled m) o' σ) >>= fun v =>
        Eval.keyName (scene.settled m) k' σ >>= fun name => Comp.ofAct (f g v name)) κ := by
  obtain ⟨ha, hbc, horder⟩ := Shape.ordered_andThen.1 hordered
  obtain ⟨hb, -, -⟩ := Shape.ordered_andThen.1 hbc
  refine (Matches.sim ho.yields ha hsound hheld).bind hheld ?_
    (horder.imp (fun hnone => hk.nothing (Shape.hoists_andThen.1 hnone).1) id)
  intro v T₁ _ hsound₁ _ hheld₁
  rw [← List.append_nil D₂]
  refine (Matches.sim hk hb hsound₁ hheld₁).bind hheld₁ ?_ (.inl rfl)
  intro name T₂ _ hsound₂ _ hheld₂
  refine Sim.write (fun g => f g.1.1 g.1.2 g.2) hsound₂ hheld₂ ?_
  rintro β S ⟨g, name'⟩ hheap - ⟨hlike, rfl⟩
  exact hwrites hheap hlike.1 hlike.2

theorem Assigns.member {o o' : Expr} (ho : scene.Chains n n₁ a D₁ o o') (hk : scene.Names n₁ n₂ b D₂ k k')
    (optional : Bool) (span : Span) :
    scene.Assigns n n₂ (a.andThen (b.andThen .change)) (D₁ ++ D₂) (.member (.member o k optional span))
      (.member (.member o' k' optional span)) := by
  refine ⟨ho.le.trans hk.le, ?_, fun hordered T γ Γ g₀ F hsound hheld hlike => ?_⟩
  · intro hnone
    obtain ⟨ha, hbc⟩ := Shape.hoists_andThen.1 hnone
    rw [ho.nothing ha, hk.nothing (Shape.hoists_andThen.1 hbc).1]
    rfl
  · simp only [Eval.bindPattern]
    refine Sim.place ho hk hordered hsound hheld (fun g v name => v.set name (F g)) ?_
    intro T β S g v w name hheap hg hv
    exact Value.set_writes hheap hv (hlike β g hg) name

theorem Chains.deleteMember {o o' : Expr} (ho : scene.Chains n n₁ a D₁ o o') (hk : scene.Names n₁ n₂ b D₂ k k')
    (optional : Bool) (ospan span : Span) :
    scene.Chains n n₂ (a.andThen (b.andThen .change)) (D₁ ++ D₂) (.unary .delete (.member o k optional ospan) span)
      (.unary .delete (.member o' k' optional ospan) span) := by
  refine Matches.mk' (ho.le.trans hk.le) ?_ fun hordered T γ Γ g₀ hsound hheld => ?_
  · intro hnone
    obtain ⟨ha, hbc⟩ := Shape.hoists_andThen.1 hnone
    rw [ho.nothing ha, hk.nothing (Shape.hoists_andThen.1 hbc).1]
    rfl
  · simp only [Eval.link]
    have herase : scene.Sim T n n₂ (a.andThen (b.andThen .change)).deeds (D₁ ++ D₂)
        ((orUndefined (Eval.link scene.reference o scene.env) >>= fun v =>
          Eval.keyName scene.reference k scene.env >>= fun name => Comp.ofAct (v.erase name)) >>= fun _ =>
            Pure.pure (some (.bool true))) Γ g₀
        (fun m _ σ => (orUndefined (Eval.link (scene.settled m) o' σ) >>= fun v =>
          Eval.keyName (scene.settled m) k' σ >>= fun name => Comp.ofAct (v.erase name)) >>= fun _ =>
            Pure.pure (some (.bool true))) Kind.value.option := by
      refine (Sim.place (κ := Kind.unit) ho hk hordered hsound hheld (fun _ v name => v.erase name) ?_).andThen
        hheld ?_
      · intro T β S g v w name hheap _ hv
        exact Value.erase_writes hheap hv name
      · intro _ T₁ _ hsound₁ _ hheld₁
        exact Sim.skip (Nat.le_refl n₂) hsound₁ hheld₁ fun β => .some (.bool true)
    simp only [bind_assoc] at herase
    exact herase

/-- A default has no declarations in front. -/
theorem Assigns.assign (hd : scene.Yields n₁ n₂ a [] e e') (hp : scene.Assigns n n₁ b D p p') :
    scene.Assigns n n₂ (a.andThen b) D (.assign p e) (.assign p' e') := by
  refine ⟨hp.le.trans hd.le, fun hnone => hp.nothing (Shape.hoists_andThen.1 hnone).2,
    fun hordered T γ Γ g₀ F hsound hheld hlike => ?_⟩
  obtain ⟨ha, hb, horder⟩ := Shape.ordered_andThen.1 hordered
  by_cases hv : F g₀ = .undefined
  · have hdefault : scene.Sim T n n₂ (a.deeds.both b.deeds) ([] ++ D)
        (orUndefined (Eval.link scene.reference e scene.env) >>= fun v =>
          Eval.bindPattern scene.reference p v .assign scene.env) Γ g₀
        (fun m _ σ => orUndefined (Eval.link (scene.settled m) e' σ) >>= fun v =>
          Eval.bindPattern (scene.settled m) p' v .assign σ) Kind.unit := by
      refine (((Matches.sim hd ha hsound hheld).rerange (Nat.le_refl n)).bind hheld ?_
        (horder.imp hp.nothing id)).widen (Nat.le_refl n) hd.le
      intro v T₁ _ hsound₁ _ hheld₁
      exact hp.sim hb (fun g => g.2) hsound₁ hheld₁ fun _ _ hg => hg.2
    refine hdefault.rerun ?_ ?_
    · rw [hv, Eval.bindPattern_undefined]
    · intro A j β S σ g _ hg m
      have hundefined : F g = .undefined := by
        have hsame := hlike β g hg
        rw [hv] at hsame
        generalize F g = w at hsame
        cases hsame
        rfl
      rw [hundefined, Eval.bindPattern_undefined]
  · refine (((hp.sim hb F hsound hheld hlike).weaken ?_ ?_).widen (Nat.le_refl n) hd.le).rerun ?_ ?_
    · exact fun hw => by simp [Shape.andThen, Deeds.both, hw]
    · exact fun hw => by simp [Shape.andThen, Deeds.both, hw]
    · rw [Eval.bindPattern_defined _ _ _ _ _ hv]
    · intro A j β S σ g _ hg m
      have hdefined : F g ≠ .undefined := by
        intro hundefined
        have hsame := hlike β g hg
        rw [hundefined] at hsame
        generalize F g₀ = v at hsame hv
        cases hsame
        exact hv rfl
      rw [Eval.bindPattern_defined _ _ _ _ _ hdefined]

/-! ## Several targets -/

theorem AssignsAll.nil : scene.AssignsAll n n Shape.still [] [] [] := by
  refine ⟨Nat.le_refl n, fun _ => rfl, fun _ T γ Γ g₀ F hsound hheld hlike => ?_⟩
  simp only [Eval.bindElements]
  exact Sim.pure (fun _ => ()) hsound hheld fun _ _ _ => rfl

theorem head?_like {β : Pairing} {vs ws : List Value} (h : vs.Forall₂ (Value.Like β) ws) :
    (vs.head?.getD .undefined).Like β (ws.head?.getD .undefined) := by
  cases h with
  | nil => exact .undefined
  | cons hvw _ => exact hvw

theorem AssignsAll.cons (hp : scene.Assigns n n₁ a D₁ p p') (h : scene.AssignsAll n₁ n₂ b D₂ ps ps')
    (hrest : ∀ target, p ≠ .rest target) (hrest' : ∀ target, p' ≠ .rest target) :
    scene.AssignsAll n n₂ (a.andThen b) (D₁ ++ D₂) (p :: ps) (p' :: ps') := by
  refine ⟨hp.le.trans h.le, nothing_append hp.nothing h.nothing,
    fun hordered T γ Γ g₀ F hsound hheld hlike => ?_⟩
  obtain ⟨ha, hb, horder⟩ := Shape.ordered_andThen.1 hordered
  simp only [Eval.bindElements_cons _ _ hrest, Eval.bindElements_cons _ _ hrest']
  refine (hp.sim ha (fun g => (F g).head?.getD .undefined) hsound hheld fun β g hg =>
    head?_like (hlike β g hg)).bind hheld ?_ (horder.imp h.nothing id)
  intro _ T₁ _ hsound₁ _ hheld₁
  refine h.sim hb (fun g => (F g.1).drop 1) hsound₁ hheld₁ ?_
  exact fun β g hg => List.forall₂_drop 1 (hlike β g.1 hg.1)

theorem AssignsAll.rest (hp : scene.Assigns n n₁ a D₁ p p') (h : scene.AssignsAll n₁ n₂ b D₂ ps ps') :
    scene.AssignsAll n n₂ (a.andThen b) (D₁ ++ D₂) (.rest p :: ps) (.rest p' :: ps') := by
  refine ⟨hp.le.trans h.le, nothing_append hp.nothing h.nothing,
    fun hordered T γ Γ g₀ F hsound hheld hlike => ?_⟩
  obtain ⟨ha, hb, horder⟩ := Shape.ordered_andThen.1 hordered
  simp only [Eval.bindElements]
  refine (Sim.newArray F hsound hheld hlike).after hheld ?_
  intro array T₁ _ hsound₁ _ hheld₁
  refine (hp.sim ha (fun g => g.2) hsound₁ hheld₁ fun _ _ hg => hg.2).bind hheld₁ ?_ (horder.imp h.nothing id)
  intro _ T₂ _ hsound₂ _ hheld₂
  refine h.sim hb (fun g => (F g.1.1).drop 1) hsound₂ hheld₂ ?_
  exact fun β g hg => List.forall₂_drop 1 (hlike β g.1.1 hg.1.1)

theorem Assigns.array (h : scene.AssignsAll n n' a D ps ps') (span : Span) :
    scene.Assigns n n' a D (.array ps span) (.array ps' span) := by
  refine ⟨h.le, h.nothing, fun hordered T γ Γ g₀ F hsound hheld hlike => ?_⟩
  simp only [Eval.bindPattern]
  refine (Sim.read (κ := Kind.value.list) (fun g => (F g).elements) hsound hheld
    fun β S g hheap hg => Value.elements_reads hheap (hlike β g hg)).after hheld ?_
  intro vs T₁ _ hsound₁ _ hheld₁
  exact h.sim hordered (fun g => g.2) hsound₁ hheld₁ fun _ _ hg => hg.2

theorem AssignsEntries.nil : scene.AssignsEntries n n Shape.still [] [] [] := by
  refine ⟨Nat.le_refl n, fun _ => rfl, fun _ T γ Γ g₀ F hsound hheld hlike => ?_⟩
  simp only [Eval.bindEntries]
  exact Sim.pure (fun _ => ()) hsound hheld fun _ _ _ => rfl

theorem AssignsEntries.init {D₃ : List Stmt} {n₃ : Nat} (hk : scene.Names n n₁ a D₁ k k')
    (hp : scene.Assigns n₁ n₂ b D₂ p p') (h : scene.AssignsEntries n₂ n₃ c D₃ props props') (shorthand : Bool) :
    scene.AssignsEntries n n₃ (a.andThen (b.andThen c)) (D₁ ++ (D₂ ++ D₃)) (.init k p shorthand :: props)
      (.init k' p' shorthand :: props') := by
  refine ⟨hk.le.trans (hp.le.trans h.le), nothing_append hk.nothing (nothing_append hp.nothing h.nothing),
    fun hordered T γ Γ g₀ F hsound hheld hlike => ?_⟩
  obtain ⟨ha, hbc, horder⟩ := Shape.ordered_andThen.1 hordered
  obtain ⟨hb, hc, horder'⟩ := Shape.ordered_andThen.1 hbc
  simp only [Eval.bindEntries]
  refine (Matches.sim hk ha hsound hheld).bind hheld ?_ (horder.imp (nothing_append hp.nothing h.nothing) id)
  intro name T₁ _ hsound₁ _ hheld₁
  refine (Sim.read (κ := Kind.value) (fun g => (F g.1).1.get g.2) hsound₁ hheld₁ ?_).after hheld₁ ?_
  · rintro β S ⟨g, name'⟩ hheap ⟨hg, rfl⟩
    exact Value.get_reads hheap (hlike β g hg).1 name
  intro v T₂ _ hsound₂ _ hheld₂
  refine (hp.sim hb (fun g => g.2) hsound₂ hheld₂ fun _ _ hg => hg.2).bind hheld₂ ?_ (horder'.imp h.nothing id)
  intro _ T₃ _ hsound₃ _ hheld₃
  refine h.sim hc (fun g => ((F g.1.1.1).1, g.1.1.2 :: (F g.1.1.1).2)) hsound₃ hheld₃ ?_
  rintro β ⟨⟨⟨g, name'⟩, w⟩, u⟩ ⟨⟨⟨hg, rfl⟩, -⟩, -⟩
  exact ⟨(hlike β g hg).1, congrArg (List.cons name) (hlike β g hg).2⟩

theorem filter_like {β : Pairing} {es fs : List (String × Value)} (h : es.Forall₂ (Value.LikeEntry β) fs)
    (used : List String) : (es.filter fun (name, _) => !used.contains name).Forall₂ (Value.LikeEntry β)
      (fs.filter fun (name, _) => !used.contains name) := by
  induction h with
  | nil => exact .nil
  | @cons e f es fs hef _ ih =>
      obtain ⟨name, v⟩ := e
      obtain ⟨name', w⟩ := f
      obtain ⟨rfl, hvw⟩ := hef
      simp only [List.filter_cons]
      split
      · exact .cons ⟨rfl, hvw⟩ ih
      · exact ih

theorem AssignsEntries.rest (hp : scene.Assigns n n₁ a D₁ p p') (h : scene.AssignsEntries n₁ n₂ b D₂ props props') :
    scene.AssignsEntries n n₂ (a.andThen b) (D₁ ++ D₂) (.rest p :: props) (.rest p' :: props') := by
  refine ⟨hp.le.trans h.le, nothing_append hp.nothing h.nothing,
    fun hordered T γ Γ g₀ F hsound hheld hlike => ?_⟩
  obtain ⟨ha, hb, horder⟩ := Shape.ordered_andThen.1 hordered
  simp only [Eval.bindEntries]
  refine (Sim.read (κ := Kind.entry.list) (fun g => (F g).1.ownEntries) hsound hheld
    fun β S g hheap hg => Value.ownEntries_reads hheap (hlike β g hg).1).after hheld ?_
  intro es T₁ _ hsound₁ _ hheld₁
  refine (Sim.newObject (fun g => g.2.filter fun (name, _) => !(F g.1).2.contains name) hsound₁ hheld₁ ?_).after
    hheld₁ ?_
  · intro β g hg
    rw [← (hlike β g.1 hg.1).2]
    exact filter_like hg.2 _
  intro object T₂ _ hsound₂ _ hheld₂
  refine (hp.sim ha (fun g => g.2) hsound₂ hheld₂ fun _ _ hg => hg.2).bind hheld₂ ?_ (horder.imp h.nothing id)
  intro _ T₃ _ hsound₃ _ hheld₃
  exact h.sim hb (fun g => F g.1.1.1) hsound₃ hheld₃ fun β g hg => hlike β g.1.1.1 hg.1.1.1

theorem Assigns.object (h : scene.AssignsEntries n n' a D props props') (span : Span) :
    scene.Assigns n n' a D (.object props span) (.object props' span) := by
  refine ⟨h.le, h.nothing, fun hordered T γ Γ g₀ F hsound hheld hlike => ?_⟩
  simp only [Eval.bindPattern]
  by_cases hnullish : (F g₀).isNullish = true
  · obtain ⟨r, hr, -⟩ := Value.toText_reads hsound.closed (hlike _ _ hheld)
    rw [if_pos hnullish]
    cases r with
    | error e =>
        refine Sim.fail (?_ : _ = Suspension.done (.error e) T)
        show (Comp.ofAct (F g₀).toText T).bind _ = _
        unfold Comp.ofAct
        rw [hr]
        rfl
    | ok text =>
        refine Sim.fail (?_ : _ = Suspension.done (.error (.raised (.type (.destructureOfNothing text)))) T)
        exact Comp.ofAct_bind hr _
  · refine (h.sim hordered (fun g => (F g, [])) hsound hheld fun β g hg => ⟨hlike β g hg, rfl⟩).rerun ?_ ?_
    · rw [if_neg hnullish]
    · intro A j β S σ g _ hg m
      rw [(hlike β g hg).isNullish_eq, if_neg hnullish]

/-! ## Assignments as expressions -/

/-- A target that is read and then bound. -/
theorem Chains.update (hread : scene.Currents n n' a D p p') (hbind : scene.Assigns n n' b D p p') (op : UpdateOp)
    (before : Bool) (span : Span) :
    scene.Chains n n' (a.fixed.andThen b.fixed) D (.update op before p span) (.update op before p' span) := by
  refine Matches.mk' hread.le (fun hnone => hread.nothing (Shape.hoists_andThen.1 hnone).1)
    fun hordered T γ Γ g₀ hsound hheld => ?_
  obtain ⟨ha, hb, -⟩ := Shape.ordered_andThen.1 hordered
  obtain ⟨ha, hnone⟩ := Shape.ordered_fixed.1 ha
  obtain ⟨hb, -⟩ := Shape.ordered_fixed.1 hb
  obtain rfl := hread.nothing hnone
  simp only [Eval.link]
  -- what a step adds does not matter
  generalize op.step = step
  show scene.Sim T _ _ _ ([] ++ []) _ Γ g₀ _ _
  refine (Matches.sim hread ha hsound hheld).bind hheld ?_ (.inl rfl)
  intro v T₁ _ hsound₁ _ hheld₁
  refine (Sim.read (κ := Kind.same Float) (fun g => g.2.toNumber) hsound₁ hheld₁
    fun β S g hheap hlike => Value.toNumber_reads hheap hlike.2).after hheld₁ ?_
  intro old T₂ _ hsound₂ _ hheld₂
  have hsame : ∀ β g, ((Γ.pair Kind.value).pair (Kind.same Float)).like β ((g₀, v), old) g → g.2 = old :=
    fun β g hg => hg.2.symm
  have hnumber : ∀ β g, ((Γ.pair Kind.value).pair (Kind.same Float)).like β ((g₀, v), old) g →
      Kind.value.like β (Value.number (step old)) (Value.number (step g.2)) := by
    intro β g hg
    rw [hsame β g hg]
    exact .number _
  have hset := (hbind.sim hb (fun g : (γ × Value) × Float => Value.number (step g.2)) hsound₂ hheld₂
    hnumber).rerange (Nat.le_refl n')
  refine hset.andThen hheld₂ ?_
  intro _ T₃ _ hsound₃ _ hheld₃
  refine Sim.pure (fun g => some (Value.number (if before then step g.1.2 else g.1.2))) hsound₃ hheld₃ ?_
  intro β g hg
  rw [hsame β g.1 hg.1]
  exact .some (.number _)

/-- A value and what is done with it: it is bound to a target and answered. -/
theorem Sim.bound {γ : Type} {T : Store} {Γ : Kind γ} {g₀ : γ} {deeds : Deeds} {x : Comp Value}
    {y : Nat → γ → Scope → Comp Value} (h : scene.Sim T n n₁ deeds D₁ x Γ g₀ y Kind.value) (hheld : Γ.Held T g₀)
    (hp : scene.Assigns n₁ n₂ b D₂ p p') (hb : b.ordered = true) (horder : D₂ = [] ∨ deeds = Deeds.none) :
    scene.Sim T n n₂ (deeds.both b.deeds) (D₁ ++ D₂)
      (x >>= fun v => Eval.bindPattern scene.reference p v .assign scene.env >>= fun _ => Pure.pure (some v)) Γ g₀
      (fun m g σ => y m g σ >>= fun v => Eval.bindPattern (scene.settled m) p' v .assign σ >>= fun _ =>
        Pure.pure (some v)) Kind.value.option := by
  refine h.bind hheld ?_ horder
  intro v T₁ _ hsound₁ _ hheld₁
  refine (hp.sim hb (fun g => g.2) hsound₁ hheld₁ fun _ _ hg => hg.2).andThen hheld₁ ?_
  intro _ T₂ _ hsound₂ _ hheld₂
  refine Sim.pure (fun g => some g.1.2) hsound₂ hheld₂ ?_
  exact fun _ _ hg => .some hg.1.2

theorem Agrees.rerange {δ α : Type} {Δ : Kind δ} {x : δ → Comp α} {y : Nat → δ → Scope → Comp α} {κ : Kind α}
    (h : scene.Agrees n n' a [] Δ x y κ) (hle : n₁ ≤ n₂) : scene.Agrees n₁ n₂ a [] Δ x y κ :=
  ⟨hle, fun _ => rfl, fun hordered _ _ _ _ F hsound hheld hlike =>
    (h.sim hordered F hsound hheld hlike).rerange hle⟩

/-- The value comes first, and the declarations of the target come first. So one of the two has none. -/
theorem Chains.assign (hp : scene.Assigns n n₁ b D₁ p p') (he : scene.Yields n₁ n₂ a D₂ e e') (span : Span) :
    scene.Chains n n₂ (a.assign b) (D₁ ++ D₂) (.assign .assign p e span) (.assign .assign p' e' span) := by
  refine Matches.mk' (hp.le.trans he.le) ?_ fun hordered T γ Γ g₀ hsound hheld => ?_
  · intro hnone
    obtain ⟨ha, hb⟩ := Shape.hoists_andThen.1 hnone
    rw [hp.nothing hb, he.nothing ha]
    rfl
  obtain ⟨hboth, hone⟩ := Shape.ordered_assign.1 hordered
  obtain ⟨ha, hb, horder⟩ := Shape.ordered_andThen.1 hboth
  simp only [Eval.link]
  rcases hone with hnone | hnone
  · obtain rfl := he.nothing hnone
    rw [List.append_nil]
    have hvalue := (Matches.sim he ha hsound hheld).rerange (Nat.le_refl n)
    exact (hvalue.bound hheld hp hb (horder.imp hp.nothing id)).widen (Nat.le_refl n) he.le
  · obtain rfl := hp.nothing hnone
    have hbound := (Matches.sim he ha hsound hheld).bound hheld (hp.rerange (Nat.le_refl n₂)) hb (.inl rfl)
    rw [List.append_nil] at hbound
    exact hbound.widen hp.le (Nat.le_refl n₂)

theorem Chains.assignBinary (hread : scene.Currents n n₁ a D₁ p p') (hbind : scene.Assigns n n₁ c D₁ p p')
    (he : scene.Yields n₁ n₂ b D₂ e e') (op : BinaryOp) (span : Span) :
    scene.Chains n n₂ (a.fixed.andThen (b.andThen c.fixed)) (D₁ ++ D₂) (.assign (.binary op) p e span)
      (.assign (.binary op) p' e' span) := by
  refine Matches.mk' (hread.le.trans he.le) ?_ fun hordered T γ Γ g₀ hsound hheld => ?_
  · intro hnone
    obtain ⟨ha, hbc⟩ := Shape.hoists_andThen.1 hnone
    rw [hread.nothing ha, he.nothing (Shape.hoists_andThen.1 hbc).1]
    rfl
  obtain ⟨ha, hbc, horder⟩ := Shape.ordered_andThen.1 hordered
  obtain ⟨hb, hc, -⟩ := Shape.ordered_andThen.1 hbc
  obtain ⟨ha, hnone⟩ := Shape.ordered_fixed.1 ha
  obtain ⟨hc, -⟩ := Shape.ordered_fixed.1 hc
  obtain rfl := hread.nothing hnone
  simp only [Eval.link]
  refine (Matches.sim hread ha hsound hheld).bind hheld ?_
    (horder.imp (fun hnone => he.nothing (Shape.hoists_andThen.1 hnone).1) id)
  intro old T₁ _ hsound₁ _ hheld₁
  have hvalue : scene.Sim T₁ n₁ n₂ b.deeds D₂
      (orUndefined (Eval.link scene.reference e scene.env) >>= fun w => Comp.ofAct (op.apply old w))
      (Γ.pair Kind.value) (g₀, old)
      (fun m g σ => orUndefined (Eval.link (scene.settled m) e' σ) >>= fun w => Comp.ofAct (op.apply g.2 w))
      Kind.value := by
    refine (Matches.sim he hb hsound₁ hheld₁).andThen hheld₁ ?_
    intro w T₂ _ hsound₂ _ hheld₂
    refine Sim.read (fun g => op.apply g.1.2 g.2) hsound₂ hheld₂ ?_
    exact fun β S g hheap hlike => BinaryOp.apply_reads op hheap hlike.1.2 hlike.2
  have hbound := hvalue.bound hheld₁ (hbind.rerange (Nat.le_refl n₂)) hc (.inl rfl)
  simp only [List.append_nil, bind_assoc] at hbound
  exact hbound

theorem Chains.assignLogical (hread : scene.Currents n n₁ a D₁ p p') (hbind : scene.Assigns n n₁ c D₁ p p')
    (he : scene.Yields n₁ n₂ b D₂ e e') (op : LogicalOp) (span : Span) :
    scene.Chains n n₂ (a.fixed.andThen (b.fixed.andThen c.fixed)) (D₁ ++ D₂) (.assign (.logical op) p e span)
      (.assign (.logical op) p' e' span) := by
  refine Matches.mk' (hread.le.trans he.le) ?_ fun hordered T γ Γ g₀ hsound hheld => ?_
  · intro hnone
    obtain ⟨ha, hbc⟩ := Shape.hoists_andThen.1 hnone
    rw [hread.nothing ha, he.nothing (Shape.hoists_andThen.1 hbc).1]
    rfl
  obtain ⟨ha, hbc, -⟩ := Shape.ordered_andThen.1 hordered
  obtain ⟨hb, hc, -⟩ := Shape.ordered_andThen.1 hbc
  obtain ⟨ha, hnone⟩ := Shape.ordered_fixed.1 ha
  obtain ⟨hb, hnone'⟩ := Shape.ordered_fixed.1 hb
  obtain ⟨hc, -⟩ := Shape.ordered_fixed.1 hc
  obtain rfl := hread.nothing hnone
  obtain rfl := he.nothing hnone'
  simp only [Eval.link]
  show scene.Sim T _ _ _ ([] ++ []) _ Γ g₀ _ _
  refine (Matches.sim hread ha hsound hheld).bind hheld ?_ (.inl rfl)
  intro old T₁ _ hsound₁ _ hheld₁
  by_cases hdecided : op.isDecided old = true
  · have hpure : scene.Sim T₁ n₁ n₁ Deeds.none [] (Pure.pure (some old)) (Γ.pair Kind.value) (g₀, old)
        (fun _ g _ => Pure.pure (some g.2)) Kind.value.option := by
      refine Sim.pure (fun g => some g.2) hsound₁ hheld₁ ?_
      exact fun _ _ hlike => .some hlike.2
    refine (hpure.rerange he.le).weaken_none.rerun ?_ ?_
    · rw [if_pos hdecided]
    · intro A j β S σ g _ hlike m
      rw [LogicalOp.isDecided_eq op hlike.2, if_pos hdecided]
  · have hbound := (Matches.sim he hb hsound₁ hheld₁).bound hheld₁ (hbind.rerange (Nat.le_refl n₂)) hc (.inl rfl)
    refine hbound.rerun ?_ ?_
    · rw [if_neg hdecided]
    · intro A j β S σ g _ hlike m
      rw [LogicalOp.isDecided_eq op hlike.2, if_neg hdecided]

end Scene

end FieldScript
