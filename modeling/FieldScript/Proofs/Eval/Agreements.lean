import FieldScript.Proofs.Eval.Links
import FieldScript.Proofs.Eval.Writes

/-!
# Trees that do the same in both runs

A tree of the first run agrees with what settling has made of it if the settled run does the same with it
behind its declarations, provided that the shape of the tree says that its calls are in order. There is one
lemma for each kind of tree, about trees whose parts agree.

* `Agrees`: both runs of a part of a body, for all stores and for all that was computed before.
* `Chains`, `Yields`: an expression as a link of a chain, and as a value.
* `Yields.keep`, `Chains.move`: declarations stay inside a position, or a call moves in front.
-/

namespace FieldScript

open Settle (temporaryName temporaryStmt awaited returning thunk)

/-! ## Shapes in order -/

namespace Shape

variable {a b : Shape} {counts pending : Bool}

theorem ordered_andThen : (a.andThen b).ordered = true ↔
    a.ordered = true ∧ b.ordered = true ∧ (b.hoists = false ∨ a.deeds = Deeds.none) := by
  obtain ⟨hoists, ⟨writes, calls⟩, ordered⟩ := a
  simp [andThen, Deeds.none, and_assoc]

theorem hoists_andThen : (a.andThen b).hoists = false ↔ a.hoists = false ∧ b.hoists = false := by
  simp [andThen]

theorem ordered_fixedIf {condition : Bool} : (a.fixedIf condition).ordered = true ↔
    a.ordered = true ∧ (condition = false ∨ a.hoists = false) := by
  cases condition <;> simp [fixedIf]

theorem ordered_fixed : a.fixed.ordered = true ↔ a.ordered = true ∧ a.hoists = false := by
  simp [fixed, ordered_fixedIf]

theorem ordered_assign : (a.assign b).ordered = true ↔
    (a.andThen b).ordered = true ∧ (a.hoists = false ∨ b.hoists = false) := by
  cases ha : a.hoists <;> cases hb : b.hoists <;> simp [assign, ha, hb]

end Shape

namespace Scene

variable (scene : Scene)

/-- Both runs of a part of a body, given something that was computed before. -/
structure Agrees {δ α : Type} (n n' : Nat) (shape : Shape) (D : List Stmt) (Δ : Kind δ) (x : δ → Comp α)
    (y : Nat → δ → Scope → Comp α) (κ : Kind α) : Prop where
  le : n ≤ n'
  nothing : shape.hoists = false → D = []
  sim : shape.ordered = true → ∀ {T : Store} {γ : Type} {Γ : Kind γ} {g₀ : γ} (F : γ → δ), scene.Sound T →
    Γ.Held T g₀ → (∀ β g, Γ.like β g₀ g → Δ.like β (F g₀) (F g)) →
      scene.Sim T n n' shape.deeds D (x (F g₀)) Γ g₀ (fun m g σ => y m (F g) σ) κ

/-- Both runs of a part that depends on nothing else. -/
abbrev Matches {α : Type} (n n' : Nat) (shape : Shape) (D : List Stmt) (x : Comp α) (y : Nat → Scope → Comp α)
    (κ : Kind α) : Prop :=
  scene.Agrees n n' shape D Kind.unit (fun _ => x) (fun m _ σ => y m σ) κ

/-- An expression and what has become of it, as links of chains. -/
abbrev Chains (n n' : Nat) (shape : Shape) (D : List Stmt) (e e' : Expr) : Prop :=
  scene.Matches n n' shape D (Eval.link scene.reference e scene.env)
    (fun m σ => Eval.link (scene.settled m) e' σ) Kind.value.option

/-- An expression and what has become of it, as values. -/
abbrev Yields (n n' : Nat) (shape : Shape) (D : List Stmt) (e e' : Expr) : Prop :=
  scene.Matches n n' shape D (orUndefined (Eval.link scene.reference e scene.env))
    (fun m σ => orUndefined (Eval.link (scene.settled m) e' σ)) Kind.value

/-- The first run of an expression never breaks off. -/
def Valued (e : Expr) : Prop :=
  ∀ T T', scene.Sound T → Eval.link scene.reference e scene.env T ≠ .done (.ok none) T'

variable {scene} {counts : Bool} {n n₁ n₂ n' : Nat} {a b : Shape} {D D₁ D₂ : List Stmt}

section

variable {α γ : Type} {T : Store} {Γ : Kind γ} {g₀ : γ} {x : Comp α} {y : Nat → Scope → Comp α} {κ : Kind α}

theorem Matches.sim (h : scene.Matches n n' a D x y κ) (hordered : a.ordered = true) (hsound : scene.Sound T)
    (hheld : Γ.Held T g₀) : scene.Sim T n n' a.deeds D x Γ g₀ (fun m _ σ => y m σ) κ :=
  Agrees.sim h hordered (fun _ => ()) hsound hheld fun _ _ _ => rfl

/-- A part that only reads. -/
theorem Matches.still (hsim : ∀ {T : Store} {γ : Type} {Γ : Kind γ} {g₀ : γ}, scene.Sound T → Γ.Held T g₀ →
    scene.Sim T n n Deeds.none [] x Γ g₀ (fun m _ σ => y m σ) κ) : scene.Matches n n Shape.still [] x y κ :=
  ⟨Nat.le_refl n, fun _ => rfl, fun _ _ _ _ _ _ hsound hheld _ => hsim hsound hheld⟩

theorem Matches.mk' (hle : n ≤ n') (hnothing : a.hoists = false → D = [])
    (hsim : a.ordered = true → ∀ {T : Store} {γ : Type} {Γ : Kind γ} {g₀ : γ}, scene.Sound T → Γ.Held T g₀ →
      scene.Sim T n n' a.deeds D x Γ g₀ (fun m _ σ => y m σ) κ) : scene.Matches n n' a D x y κ :=
  ⟨hle, hnothing, fun hordered _ _ _ _ _ hsound hheld _ => hsim hordered hsound hheld⟩

end

/-- A value as a link of a chain. -/
theorem Sim.link {γ : Type} {T : Store} {Γ : Kind γ} {g₀ : γ} {deeds : Deeds} {x : Comp Value}
    {y : Nat → γ → Scope → Comp Value} (h : scene.Sim T n n' deeds D x Γ g₀ y Kind.value) (hheld : Γ.Held T g₀) :
    scene.Sim T n n' deeds D (x >>= fun v => Pure.pure (some v)) Γ g₀
      (fun m g σ => y m g σ >>= fun v => Pure.pure (some v)) Kind.value.option := by
  refine h.andThen hheld ?_
  intro v T₁ _ hsound₁ _ hheld₁
  refine Sim.pure (fun g => some g.2) hsound₁ hheld₁ ?_
  exact fun _ _ hlike => .some hlike.2

/-- The value at the end of a chain. -/
theorem Chains.yields {e e' : Expr} (h : scene.Chains n n' a D e e') : scene.Yields n n' a D e e' := by
  refine Matches.mk' h.le h.nothing fun hordered T γ Γ g₀ hsound hheld => ?_
  unfold orUndefined
  refine (Matches.sim h hordered hsound hheld).andThen hheld ?_
  intro r T₁ _ hsound₁ _ hheld₁
  refine Sim.pure (fun g => g.2.getD .undefined) hsound₁ hheld₁ ?_
  rintro β ⟨g, r'⟩ ⟨-, hlike⟩
  cases hlike with
  | some h => exact h
  | none => exact Value.Like.undefined

/-! ## Simple expressions -/

theorem Chains.literal (lit : Literal) (span : Span) :
    scene.Chains n n Shape.still [] (.literal lit span) (.literal lit span) := by
  refine Matches.still fun hsound hheld => ?_
  simp only [Eval.link]
  refine Sim.pure (fun _ => some lit.value.toValue) hsound hheld fun _ _ _ => .some ?_
  cases lit.value <;> exact .atom _ rfl rfl

theorem Chains.identifier {strict : Bool} (hlaw : scene.Lawful strict) {name : String} (hname : Ordinary name)
    (span : Span) : scene.Chains n n Shape.still [] (.identifier name span) (.identifier name span) := by
  refine Matches.still fun hsound hheld => ?_
  simp only [Eval.link]
  exact (Sim.lookup hlaw hname hsound hheld).link hheld

theorem Chains.typeOfName {strict : Bool} (hlaw : scene.Lawful strict) {name : String} (hname : Ordinary name)
    (ispan span : Span) : scene.Chains n n Shape.still [] (.unary .typeOf (.identifier name ispan) span)
      (.unary .typeOf (.identifier name ispan) span) := by
  refine Matches.still fun hsound hheld => ?_
  simp only [Eval.link]
  exact (Sim.typeOfName hlaw hname hsound hheld).link hheld

theorem nothing_append (h : a.hoists = false → D₁ = []) (h' : b.hoists = false → D₂ = [])
    (hnone : (a.andThen b).hoists = false) : D₁ ++ D₂ = [] := by
  obtain ⟨ha, hb⟩ := Shape.hoists_andThen.1 hnone
  rw [h ha, h' hb]
  rfl

/-! ## Several expressions -/

variable {e e' : Expr}

section

variable {es es' : List Expr} {items items' : List Item} {props props' : List Property} {k k' : Key}

/-- The texts of expressions. -/
abbrev Texts (scene : Scene) (n n' : Nat) (shape : Shape) (D : List Stmt) (es es' : List Expr) : Prop :=
  scene.Matches n n' shape D (Eval.texts scene.reference es scene.env)
    (fun m σ => Eval.texts (scene.settled m) es' σ) (Kind.same (List String))

theorem Texts.nil : scene.Texts n n Shape.still [] [] [] := by
  refine Matches.still fun hsound hheld => ?_
  simp only [Eval.texts]
  exact Sim.pure (fun _ => []) hsound hheld fun _ _ _ => rfl

theorem Texts.cons (he : scene.Yields n n₁ a D₁ e e') (h : scene.Texts n₁ n₂ b D₂ es es') :
    scene.Texts n n₂ (a.andThen b) (D₁ ++ D₂) (e :: es) (e' :: es') := by
  refine Matches.mk' (he.le.trans h.le) (nothing_append he.nothing h.nothing) fun hordered T γ Γ g₀ hsound hheld => ?_
  obtain ⟨ha, hb, horder⟩ := Shape.ordered_andThen.1 hordered
  simp only [Eval.texts]
  refine (Matches.sim he ha hsound hheld).bind hheld ?_ (horder.imp h.nothing id)
  intro v T₁ _ hsound₁ _ hheld₁
  refine (Sim.read (κ := Kind.same String) (fun g => g.2.toText) hsound₁ hheld₁
    fun β S g hheap hlike => Value.toText_reads hheap hlike.2).after hheld₁ ?_
  intro text T₂ _ hsound₂ _ hheld₂
  refine (Matches.sim h hb hsound₂ hheld₂).andThen hheld₂ ?_
  intro texts T₃ _ hsound₃ _ hheld₃
  refine Sim.pure (fun g => g.1.2 :: g.2) hsound₃ hheld₃ ?_
  rintro β ⟨⟨g, text'⟩, texts'⟩ ⟨⟨-, rfl⟩, rfl⟩
  rfl

theorem Chains.template (parts : List TemplatePart) (h : scene.Texts n n' a D es es') (span : Span) :
    scene.Chains n n' a D (.template parts es span) (.template parts es' span) := by
  refine Matches.mk' h.le h.nothing fun hordered T γ Γ g₀ hsound hheld => ?_
  simp only [Eval.link]
  refine (Matches.sim h hordered hsound hheld).andThen hheld ?_
  intro texts T₁ _ hsound₁ _ hheld₁
  refine Sim.pure (fun g => some (Value.string (interleave parts g.2))) hsound₁ hheld₁ ?_
  rintro β ⟨g, texts'⟩ ⟨-, rfl⟩
  exact .some (Value.Like.string _)

/-- The values of elements or arguments. -/
abbrev Elements (scene : Scene) (n n' : Nat) (shape : Shape) (D : List Stmt) (items items' : List Item) : Prop :=
  scene.Matches n n' shape D (Eval.values scene.reference items scene.env)
    (fun m σ => Eval.values (scene.settled m) items' σ) Kind.value.list

theorem Elements.nil : scene.Elements n n Shape.still [] [] [] := by
  refine Matches.still fun hsound hheld => ?_
  simp only [Eval.values]
  exact Sim.pure (κ := Kind.value.list) (fun _ => []) hsound hheld fun _ _ _ => .nil

theorem Elements.expr (he : scene.Yields n n₁ a D₁ e e') (h : scene.Elements n₁ n₂ b D₂ items items') :
    scene.Elements n n₂ (a.andThen b) (D₁ ++ D₂) (.expr e :: items) (.expr e' :: items') := by
  refine Matches.mk' (he.le.trans h.le) (nothing_append he.nothing h.nothing) fun hordered T γ Γ g₀ hsound hheld => ?_
  obtain ⟨ha, hb, horder⟩ := Shape.ordered_andThen.1 hordered
  simp only [Eval.values]
  refine (Matches.sim he ha hsound hheld).bind hheld ?_ (horder.imp h.nothing id)
  intro v T₁ _ hsound₁ _ hheld₁
  refine (Matches.sim h hb hsound₁ hheld₁).andThen hheld₁ ?_
  intro vs T₂ _ hsound₂ _ hheld₂
  refine Sim.pure (fun g => g.1.2 :: g.2) hsound₂ hheld₂ ?_
  exact fun _ _ hlike => .cons hlike.1.2 hlike.2

theorem Elements.spread (he : scene.Yields n n₁ a D₁ e e') (h : scene.Elements n₁ n₂ b D₂ items items') :
    scene.Elements n n₂ (a.andThen b) (D₁ ++ D₂) (.spread e :: items) (.spread e' :: items') := by
  refine Matches.mk' (he.le.trans h.le) (nothing_append he.nothing h.nothing) fun hordered T γ Γ g₀ hsound hheld => ?_
  obtain ⟨ha, hb, horder⟩ := Shape.ordered_andThen.1 hordered
  simp only [Eval.values]
  refine (Matches.sim he ha hsound hheld).bind hheld ?_ (horder.imp h.nothing id)
  intro v T₁ _ hsound₁ _ hheld₁
  refine (Sim.read (κ := Kind.value.list) (fun g => g.2.elements) hsound₁ hheld₁
    fun β S g hheap hlike => Value.elements_reads hheap hlike.2).after hheld₁ ?_
  intro ws T₂ _ hsound₂ _ hheld₂
  refine (Matches.sim h hb hsound₂ hheld₂).andThen hheld₂ ?_
  intro vs T₃ _ hsound₃ _ hheld₃
  refine Sim.pure (fun g => g.1.2 ++ g.2) hsound₃ hheld₃ ?_
  exact fun _ _ hlike => List.rel_append hlike.1.2 hlike.2

theorem Elements.hole (h : scene.Elements n n' a D items items') :
    scene.Elements n n' a D (.hole :: items) (.hole :: items') := by
  refine Matches.mk' h.le h.nothing fun hordered T γ Γ g₀ hsound hheld => ?_
  simp only [Eval.values]
  refine (Matches.sim h hordered hsound hheld).andThen hheld ?_
  intro vs T₁ _ hsound₁ _ hheld₁
  refine Sim.pure (fun g => Value.undefined :: g.2) hsound₁ hheld₁ ?_
  exact fun _ _ hlike => .cons .undefined hlike.2

theorem Chains.array (h : scene.Elements n n' a D items items') (span : Span) :
    scene.Chains n n' a D (.array items span) (.array items' span) := by
  refine Matches.mk' h.le h.nothing fun hordered T γ Γ g₀ hsound hheld => ?_
  simp only [Eval.link]
  refine (Matches.sim h hordered hsound hheld).andThen hheld ?_
  intro vs T₁ _ hsound₁ _ hheld₁
  exact (Sim.newArray (fun g : γ × List Value => g.2) hsound₁ hheld₁ fun _ _ hlike => hlike.2).link hheld₁

/-- The name that a key stands for. -/
abbrev Names (scene : Scene) (n n' : Nat) (shape : Shape) (D : List Stmt) (k k' : Key) : Prop :=
  scene.Matches n n' shape D (Eval.keyName scene.reference k scene.env)
    (fun m σ => Eval.keyName (scene.settled m) k' σ) (Kind.same String)

theorem Names.name (id : Ident) : scene.Names n n Shape.still [] (.name id) (.name id) := by
  refine Matches.still fun hsound hheld => ?_
  simp only [Eval.keyName]
  exact Sim.pure (fun _ => id.name) hsound hheld fun _ _ _ => rfl

theorem Names.literal (lit : Literal) : scene.Names n n Shape.still [] (.literal lit) (.literal lit) := by
  refine Matches.still fun hsound hheld => ?_
  simp only [Eval.keyName]
  exact Sim.pure (fun _ => lit.key) hsound hheld fun _ _ _ => rfl

theorem Names.computed (h : scene.Yields n n' a D e e') : scene.Names n n' a D (.computed e) (.computed e') := by
  refine Matches.mk' h.le h.nothing fun hordered T γ Γ g₀ hsound hheld => ?_
  simp only [Eval.keyName]
  refine (Matches.sim h hordered hsound hheld).andThen hheld ?_
  intro v T₁ _ hsound₁ _ hheld₁
  refine Sim.read (fun g => g.2.toKey) hsound₁ hheld₁ ?_
  exact fun β S g hheap hlike => Value.toText_reads hheap hlike.2

/-- The entries that properties set. -/
abbrev Sets (scene : Scene) (n n' : Nat) (shape : Shape) (D : List Stmt) (props props' : List Property) : Prop :=
  scene.Matches n n' shape D (Eval.entries scene.reference props scene.env)
    (fun m σ => Eval.entries (scene.settled m) props' σ) Kind.entry.list

theorem Sets.nil : scene.Sets n n Shape.still [] [] [] := by
  refine Matches.still fun hsound hheld => ?_
  simp only [Eval.entries]
  exact Sim.pure (κ := Kind.entry.list) (fun _ => []) hsound hheld fun _ _ _ => .nil

theorem Sets.init {c : Shape} {D₃ : List Stmt} {n₃ : Nat} (hk : scene.Names n n₁ a D₁ k k')
    (he : scene.Yields n₁ n₂ b D₂ e e') (h : scene.Sets n₂ n₃ c D₃ props props') (shorthand : Bool) (span : Span) :
    scene.Sets n n₃ (a.andThen (b.andThen c)) (D₁ ++ (D₂ ++ D₃)) (.init k e shorthand span :: props)
      (.init k' e' shorthand span :: props') := by
  refine Matches.mk' (hk.le.trans (he.le.trans h.le))
    (nothing_append hk.nothing (nothing_append he.nothing h.nothing)) fun hordered T γ Γ g₀ hsound hheld => ?_
  obtain ⟨ha, hbc, horder⟩ := Shape.ordered_andThen.1 hordered
  obtain ⟨hb, hc, horder'⟩ := Shape.ordered_andThen.1 hbc
  simp only [Eval.entries]
  refine (Matches.sim hk ha hsound hheld).bind hheld ?_ (horder.imp (nothing_append he.nothing h.nothing) id)
  intro name T₁ _ hsound₁ _ hheld₁
  refine (Matches.sim he hb hsound₁ hheld₁).bind hheld₁ ?_ (horder'.imp h.nothing id)
  intro v T₂ _ hsound₂ _ hheld₂
  refine (Matches.sim h hc hsound₂ hheld₂).andThen hheld₂ ?_
  intro es T₃ _ hsound₃ _ hheld₃
  refine Sim.pure (fun g => (g.1.1.2, g.1.2) :: g.2) hsound₃ hheld₃ fun _ _ hlike => ?_
  exact .cons ⟨hlike.1.1.2, hlike.1.2⟩ hlike.2

theorem Sets.spread (he : scene.Yields n n₁ a D₁ e e') (h : scene.Sets n₁ n₂ b D₂ props props') :
    scene.Sets n n₂ (a.andThen b) (D₁ ++ D₂) (.spread e :: props) (.spread e' :: props') := by
  refine Matches.mk' (he.le.trans h.le) (nothing_append he.nothing h.nothing) fun hordered T γ Γ g₀ hsound hheld => ?_
  obtain ⟨ha, hb, horder⟩ := Shape.ordered_andThen.1 hordered
  simp only [Eval.entries]
  refine (Matches.sim he ha hsound hheld).bind hheld ?_ (horder.imp h.nothing id)
  intro v T₁ _ hsound₁ _ hheld₁
  refine (Sim.read (κ := Kind.entry.list) (fun g => g.2.ownEntries) hsound₁ hheld₁
    fun β S g hheap hlike => Value.ownEntries_reads hheap hlike.2).after hheld₁ ?_
  intro ws T₂ _ hsound₂ _ hheld₂
  refine (Matches.sim h hb hsound₂ hheld₂).andThen hheld₂ ?_
  intro vs T₃ _ hsound₃ _ hheld₃
  refine Sim.pure (fun g => g.1.2 ++ g.2) hsound₃ hheld₃ ?_
  exact fun _ _ hlike => List.rel_append hlike.1.2 hlike.2

theorem Chains.object (h : scene.Sets n n' a D props props') (span : Span) :
    scene.Chains n n' a D (.object props span) (.object props' span) := by
  refine Matches.mk' h.le h.nothing fun hordered T γ Γ g₀ hsound hheld => ?_
  simp only [Eval.link]
  refine (Matches.sim h hordered hsound hheld).andThen hheld ?_
  intro vs T₁ _ hsound₁ _ hheld₁
  exact (Sim.newObject (fun g : γ × List (String × Value) => Entries.setAll [] g.2) hsound₁ hheld₁
    fun _ _ hlike => Entries.setAll_like .nil hlike.2).link hheld₁

end

/-! ## Chains -/

/-- What follows a link that has a value. -/
theorem Sim.of_value {α γ : Type} {T : Store} {Γ : Kind γ} {g₀ : γ} {v : Value} {deeds : Deeds} {x : Comp α}
    {y : Nat → γ × Option Value → Scope → Comp α} {κ : Kind α}
    (h : scene.Sim T n n' deeds D x (Γ.pair Kind.value) (g₀, v) (fun m g σ => y m (g.1, some g.2) σ) κ) :
    scene.Sim T n n' deeds D x (Γ.pair Kind.value.option) (g₀, some v) y κ := by
  refine h.congr ?_
  rintro β ⟨g, w⟩ ⟨hlike, hvalue⟩
  cases hvalue with
  | some hvalue => exact ⟨(g, _), ⟨hlike, hvalue⟩, fun _ _ => rfl⟩

/-- What follows a link of a chain that has broken off. -/
theorem Sim.of_nothing {γ : Type} {T : Store} {Γ : Kind γ} {g₀ : γ} {deeds : Deeds}
    {y : Nat → γ × Option Value → Scope → Comp (Option Value)} (hle : n ≤ n') (hsound : scene.Sound T)
    (hheld : Γ.Held T g₀) (hy : ∀ m g σ, y m (g, none) σ = Pure.pure none) :
    scene.Sim T n n' deeds [] (Pure.pure none) (Γ.pair Kind.value.option) (g₀, none) y Kind.value.option := by
  have hpure : scene.Sim T n n Deeds.none [] (Pure.pure none) Γ g₀ (fun _ _ _ => Pure.pure none)
      Kind.value.option := Sim.pure (fun _ => none) hsound hheld fun _ _ _ => .none
  refine (hpure.rerange hle).weaken_none.congr ?_
  rintro β ⟨g, w⟩ ⟨hlike, hnone⟩
  cases hnone
  exact ⟨g, hlike, fun m σ => hy m g σ⟩

/-- A member access that is not optional breaks off with its object only. -/
theorem Valued.member {o : Expr} (h : scene.Valued o) (k : Key) (span : Span) :
    scene.Valued (.member o k false span) := by
  intro T T' hsound
  rw [Eval.link]
  refine Comp.Valued.bind_at (P := fun r => r ≠ none) ?_ ?_ T'
  · rintro t r hrun rfl
    exact h T t hsound hrun
  · intro r hr
    cases r with
    | none => exact absurd rfl hr
    | some v => exact .bind fun name => .link _

/-- The object of a member access, and the key behind it. -/
theorem Chains.member {o o' : Expr} {k k' : Key} (ho : scene.Chains n n₁ a D₁ o o')
    (hk : scene.Names n₁ n₂ b D₂ k k') (hvalued : o.isOptionalChain = false → scene.Valued o) (optional : Bool)
    (span : Span) : scene.Chains n n₂ (a.andThen (b.fixedIf (optional || o.isOptionalChain))) (D₁ ++ D₂)
      (.member o k optional span) (.member o' k' optional span) := by
  refine Matches.mk' (ho.le.trans hk.le) (nothing_append ho.nothing hk.nothing)
    fun hordered T γ Γ g₀ hsound hheld => ?_
  obtain ⟨ha, hfixed, horder⟩ := Shape.ordered_andThen.1 hordered
  obtain ⟨hb, hskips⟩ := Shape.ordered_fixedIf.1 hfixed
  simp only [Eval.link]
  refine (Matches.sim ho ha hsound hheld).bind hheld ?_ (horder.imp hk.nothing id)
  intro r T₁ hrun hsound₁ _ hheld₁
  -- if the key is skipped then nothing of it has moved in front
  have hnone : optional = true ∨ r = none → D₂ = [] := by
    intro hskip
    refine hk.nothing (hskips.resolve_left fun hchain => ?_)
    obtain ⟨hoptional, hchain⟩ := Bool.or_eq_false_iff.1 hchain
    rcases hskip with rfl | rfl
    · cases hoptional
    · exact hvalued hchain T T₁ hsound hrun
  cases r with
  | none =>
      rw [hnone (.inr rfl)]
      exact Sim.of_nothing hk.le hsound₁ hheld₁.1 fun _ _ _ => rfl
  | some v =>
      refine Sim.of_value ?_
      have hheld₁' : (Γ.pair Kind.value).Held T₁ (g₀, v) := by
        obtain ⟨hheld₁, hv⟩ := hheld₁
        cases hv with
        | some hv => exact ⟨hheld₁, hv⟩
      by_cases hskip : (optional && v.isNullish) = true
      · rw [hnone (.inl (Bool.and_eq_true_iff.1 hskip).1)]
        have hpure : scene.Sim T₁ n₁ n₁ Deeds.none [] (Pure.pure none) (Γ.pair Kind.value) (g₀, v)
            (fun _ _ _ => Pure.pure none) Kind.value.option :=
          Sim.pure (fun _ => none) hsound₁ hheld₁' fun _ _ _ => .none
        refine (hpure.rerange hk.le).weaken_none.rerun ?_ ?_
        · dsimp only
          rw [if_pos hskip]
        · intro A j β S σ g _ hlike m
          dsimp only
          rw [hlike.2.isNullish_eq, if_pos hskip]
      · have hget : scene.Sim T₁ n₁ n₂ b.deeds D₂
            (Eval.keyName scene.reference k scene.env >>= fun name => Comp.ofAct (v.get name) >>= fun w =>
              Pure.pure (some w)) (Γ.pair Kind.value) (g₀, v)
            (fun m g σ => Eval.keyName (scene.settled m) k' σ >>= fun name => Comp.ofAct (g.2.get name) >>= fun w =>
              Pure.pure (some w)) Kind.value.option := by
          refine (Matches.sim hk hb hsound₁ hheld₁').andThen hheld₁' ?_
          intro name T₂ _ hsound₂ _ hheld₂
          refine (Sim.read (κ := Kind.value) (fun g => g.1.2.get g.2) hsound₂ hheld₂ ?_).link hheld₂
          rintro β S ⟨g, name'⟩ hheap ⟨hlike, rfl⟩
          exact Value.get_reads hheap hlike.2 name
        refine hget.rerun ?_ ?_
        · dsimp only
          rw [if_neg hskip]
          rfl
        · intro A j β S σ g _ hlike m
          dsimp only
          rw [hlike.2.isNullish_eq, if_neg hskip]
          rfl

/-! ## Calls -/

theorem Chains.call {items items' : List Item} (hlaw : scene.Lawful counts) {name : String} (hname : Ordinary name)
    (hcap : scene.setting.capabilities.contains name = true) {pending : Bool}
    (hpending : scene.setting.capabilities.isAsync name = true → pending = true)
    (h : scene.Elements n n' a D items items') (optional : Bool) (ispan span : Span) :
    scene.Chains n n' (a.andThen (.call counts)) D (.call (.identifier name ispan) items optional span)
      (if pending then awaited (.call (.identifier name ispan) items' optional span)
        else .call (.identifier name ispan) items' optional span) := by
  refine Matches.mk' h.le (fun hnone => h.nothing (Shape.hoists_andThen.1 hnone).1)
    fun hordered T γ Γ g₀ hsound hheld => ?_
  obtain ⟨ha, -, -⟩ := Shape.ordered_andThen.1 hordered
  have hsim : scene.Sim T n n' (a.andThen (.call counts)).deeds (D ++ [])
      (Eval.values scene.reference items scene.env >>= fun vs => scene.reference.call (.capability name) vs >>=
        fun v => Pure.pure (some v)) Γ g₀
      (fun m _ σ => Eval.values (scene.settled m) items' σ >>= fun vs =>
        ((scene.settled m).call (.capability name) vs >>= fun v => if pending then Comp.settle v else Pure.pure v) >>=
          fun v => Pure.pure (some v)) Kind.value.option := by
    refine (Matches.sim h ha hsound hheld).bind hheld ?_ (.inl rfl)
    intro vs T₁ _ hsound₁ _ hheld₁
    exact (Sim.call hlaw name pending hpending (fun g : γ × List Value => g.2) hsound₁ hheld₁
      fun _ _ hlike => hlike.2).link hheld₁
  rw [List.append_nil] at hsim
  refine hsim.rerun ?_ ?_
  · exact Eval.link_capability (c := scene.reference) hcap
      ((hsound.find? name).trans (hlaw.unshadowed hcap)) items optional ispan span
  · intro A j β S σ g hat _ m
    have hfree : Scope.find? S name σ = none := (hat.names name hname).trans (hlaw.unshadowed hcap)
    have hlink := Eval.link_capability (c := scene.settled m) hcap hfree items' optional ispan span
    cases pending with
    | false =>
        simp only [Bool.false_eq_true, if_false, bind_pure]
        exact hlink
    | true =>
        simp only [if_true, awaited]
        rw [Eval.link]
        unfold orUndefined
        simp only [bind_assoc, pure_bind]
        refine (congrArg (fun x : Suspension (Option Value) => x.bind fun r =>
          Comp.settle (r.getD .undefined) >>= fun v => Pure.pure (some v)) hlink).trans ?_
        show ((Eval.values (scene.settled m) items' σ >>= fun vs =>
          (scene.settled m).call (.capability name) vs >>= fun v => Pure.pure (some v)) >>= fun r =>
            Comp.settle (r.getD .undefined) >>= fun v => Pure.pure (some v)) S = _
        simp only [bind_assoc, pure_bind, Option.getD_some]

/-- A call of a capability has a value. -/
theorem call_valued (hlaw : scene.Lawful counts) {name : String}
    (hcap : scene.setting.capabilities.contains name = true) (args : List Item) (optional : Bool)
    (ispan span : Span) : scene.Valued (.call (.identifier name ispan) args optional span) := by
  intro T T' hsound
  rw [Eval.link_capability (c := scene.reference) hcap ((hsound.find? name).trans (hlaw.unshadowed hcap))]
  have hvalued : Comp.Valued (Eval.values scene.reference args scene.env >>= fun vs =>
    scene.reference.call (.capability name) vs >>= fun v => Pure.pure (some v)) := .bind fun vs => .link _
  exact hvalued T T'

/-! ## Operators -/

theorem Sim.settle {γ : Type} {T : Store} {Γ : Kind γ} {g₀ : γ} (F : γ → Value) (hsound : scene.Sound T)
    (hheld : Γ.Held T g₀) (h : ∀ β g, Γ.like β g₀ g → (F g₀).Like β (F g)) :
    scene.Sim T n n Deeds.none [] (Comp.settle (F g₀)) Γ g₀ (fun _ g _ => Comp.settle (F g)) Kind.value := by
  refine (Sim.pure (κ := Kind.value) F hsound hheld h).rerun ?_ ?_
  · rw [settle_like (h _ _ hheld)]
  · intro A j β S σ g _ hlike m
    rw [settle_like (h β g hlike)]

theorem Chains.await (h : scene.Yields n n' a D e e') (span : Span) :
    scene.Chains n n' a D (.await e span) (.await e' span) := by
  refine Matches.mk' h.le h.nothing fun hordered T γ Γ g₀ hsound hheld => ?_
  simp only [Eval.link]
  refine (Matches.sim h hordered hsound hheld).andThen hheld ?_
  intro v T₁ _ hsound₁ _ hheld₁
  exact (Sim.settle (fun g : γ × Value => g.2) hsound₁ hheld₁ fun _ _ hlike => hlike.2).link hheld₁

theorem Chains.unary {op : UnaryOp} (h : scene.Yields n n' a D e e') (span : Span) (hdelete : op ≠ .delete)
    (htype : op = .typeOf → ∀ name ispan, e ≠ .identifier name ispan)
    (htype' : op = .typeOf → ∀ name ispan, e' ≠ .identifier name ispan) :
    scene.Chains n n' a D (.unary op e span) (.unary op e' span) := by
  refine Matches.mk' h.le h.nothing fun hordered T γ Γ g₀ hsound hheld => ?_
  simp only [Eval.link_unary _ _ span htype hdelete, Eval.link_unary _ _ span htype' hdelete]
  refine (Matches.sim h hordered hsound hheld).andThen hheld ?_
  intro v T₁ _ hsound₁ _ hheld₁
  refine (Sim.read (κ := Kind.value) (fun g => op.apply g.2) hsound₁ hheld₁ ?_).link hheld₁
  exact fun β S g hheap hlike => UnaryOp.apply_reads op hheap hlike.2

/-- What both runs do if they do nothing with an operand. -/
theorem Sim.skip {α γ : Type} {T : Store} {Γ : Kind γ} {g₀ : γ} {deeds : Deeds} {r : α} {κ : Kind α} (hle : n ≤ n')
    (hsound : scene.Sound T) (hheld : Γ.Held T g₀) (h : ∀ β, κ.like β r r) :
    scene.Sim T n n' deeds [] (Pure.pure r) Γ g₀ (fun _ _ _ => Pure.pure r) κ := by
  have hpure : scene.Sim T n n Deeds.none [] (Pure.pure r) Γ g₀ (fun _ _ _ => Pure.pure r) κ :=
    Sim.pure (fun _ => r) hsound hheld fun β _ _ => h β
  exact (hpure.rerange hle).weaken_none

theorem Chains.delete (h : scene.Yields n n' a D e e') (span : Span)
    (hmember : ∀ o k optional ospan, e ≠ .member o k optional ospan)
    (hmember' : ∀ o k optional ospan, e' ≠ .member o k optional ospan) :
    scene.Chains n n' a.fixed D (.unary .delete e span) (.unary .delete e' span) := by
  refine Matches.mk' h.le h.nothing fun hordered T γ Γ g₀ hsound hheld => ?_
  obtain ⟨-, hnone⟩ := Shape.ordered_fixed.1 hordered
  rw [h.nothing hnone, Eval.link_delete _ _ span hmember]
  simp only [Eval.link_delete _ _ span hmember']
  exact Sim.skip h.le hsound hheld fun β => .some (.bool true)

section

variable {l l' r r' : Expr} {c : Shape} {D₃ : List Stmt} {n₃ : Nat}

theorem Chains.binary (hl : scene.Yields n n₁ a D₁ l l') (hr : scene.Yields n₁ n₂ b D₂ r r') (op : BinaryOp)
    (span : Span) :
    scene.Chains n n₂ (a.andThen b) (D₁ ++ D₂) (.binary op l r span) (.binary op l' r' span) := by
  refine Matches.mk' (hl.le.trans hr.le) (nothing_append hl.nothing hr.nothing)
    fun hordered T γ Γ g₀ hsound hheld => ?_
  obtain ⟨ha, hb, horder⟩ := Shape.ordered_andThen.1 hordered
  simp only [Eval.link]
  refine (Matches.sim hl ha hsound hheld).bind hheld ?_ (horder.imp hr.nothing id)
  intro v T₁ _ hsound₁ _ hheld₁
  refine (Matches.sim hr hb hsound₁ hheld₁).andThen hheld₁ ?_
  intro w T₂ _ hsound₂ _ hheld₂
  refine (Sim.read (κ := Kind.value) (fun g => op.apply g.1.2 g.2) hsound₂ hheld₂ ?_).link hheld₂
  exact fun β S g hheap hlike => BinaryOp.apply_reads op hheap hlike.1.2 hlike.2

/-- The right operand of a logical operator has no declarations in front. -/
theorem Chains.logical (hl : scene.Yields n n₁ a D l l') (hr : scene.Yields n₁ n₂ b [] r r') (op : LogicalOp)
    (span : Span) : scene.Chains n n₂ (a.andThen b) D (.logical op l r span) (.logical op l' r' span) := by
  refine Matches.mk' (hl.le.trans hr.le) (fun hnone => hl.nothing (Shape.hoists_andThen.1 hnone).1)
    fun hordered T γ Γ g₀ hsound hheld => ?_
  obtain ⟨ha, hb, -⟩ := Shape.ordered_andThen.1 hordered
  simp only [Eval.link]
  rw [← List.append_nil D]
  refine (Matches.sim hl ha hsound hheld).bind hheld ?_ (.inl rfl)
  intro v T₁ _ hsound₁ _ hheld₁
  by_cases hdecided : op.isDecided v = true
  · have hpure : scene.Sim T₁ n₁ n₁ Deeds.none [] (Pure.pure (some v)) (Γ.pair Kind.value) (g₀, v)
        (fun _ g _ => Pure.pure (some g.2)) Kind.value.option := by
      refine Sim.pure (fun g => some g.2) hsound₁ hheld₁ ?_
      exact fun _ _ hlike => .some hlike.2
    refine (hpure.rerange hr.le).weaken_none.rerun ?_ ?_
    · rw [if_pos hdecided]
    · intro A j β S σ g _ hlike m
      rw [LogicalOp.isDecided_eq op hlike.2, if_pos hdecided]
  · refine ((Matches.sim hr hb hsound₁ hheld₁).link hheld₁).rerun ?_ ?_
    · rw [if_neg hdecided]
    · intro A j β S σ g _ hlike m
      rw [LogicalOp.isDecided_eq op hlike.2, if_neg hdecided]

/-- The branches of a conditional have no declarations in front. -/
theorem Chains.conditional (ht : scene.Yields n n₁ a D e e') (hl : scene.Yields n₁ n₂ b [] l l')
    (hr : scene.Yields n₂ n₃ c [] r r') (span : Span) :
    scene.Chains n n₃ (a.andThen (b.andThen c)) D (.conditional e l r span) (.conditional e' l' r' span) := by
  refine Matches.mk' (ht.le.trans (hl.le.trans hr.le)) (fun hnone => ht.nothing (Shape.hoists_andThen.1 hnone).1)
    fun hordered T γ Γ g₀ hsound hheld => ?_
  obtain ⟨ha, hbc, -⟩ := Shape.ordered_andThen.1 hordered
  obtain ⟨hb, hc, -⟩ := Shape.ordered_andThen.1 hbc
  simp only [Eval.link]
  rw [← List.append_nil D]
  refine (Matches.sim ht ha hsound hheld).bind hheld ?_ (.inl rfl)
  intro v T₁ _ hsound₁ _ hheld₁
  have hle : n₁ ≤ n₃ := hl.le.trans hr.le
  by_cases htrue : v.isTruthy = true
  · refine ((((Matches.sim hl hb hsound₁ hheld₁).link hheld₁).rerange hle).weaken ?_ ?_).rerun ?_ ?_
    · exact fun hw => by simp [Shape.andThen, Deeds.both, hw]
    · exact fun hw => by simp [Shape.andThen, Deeds.both, hw]
    · rw [if_pos htrue]
    · intro A j β S σ g _ hlike m
      rw [hlike.2.isTruthy_eq, if_pos htrue]
  · refine ((((Matches.sim hr hc hsound₁ hheld₁).link hheld₁).rerange hle).weaken ?_ ?_).rerun ?_ ?_
    · exact fun hw => by simp [Shape.andThen, Deeds.both, hw]
    · exact fun hw => by simp [Shape.andThen, Deeds.both, hw]
    · rw [if_neg htrue]
    · intro A j β S σ g _ hlike m
      rw [hlike.2.isTruthy_eq, if_neg htrue]

end

/-! ## Sequences -/

/-- The value of the last of several expressions. -/
abbrev Lasts (scene : Scene) (n n' : Nat) (shape : Shape) (D : List Stmt) (es es' : List Expr) : Prop :=
  scene.Matches n n' shape D (Eval.last scene.reference es scene.env)
    (fun m σ => Eval.last (scene.settled m) es' σ) Kind.value

theorem Lasts.nil : scene.Lasts n n Shape.still [] [] [] := by
  refine Matches.still fun hsound hheld => ?_
  simp only [Eval.last]
  exact Sim.atom .undefined rfl rfl hsound hheld

theorem Lasts.single (h : scene.Yields n n' a D e e') : scene.Lasts n n' (a.andThen .still) D [e] [e'] := by
  refine Matches.mk' h.le (fun hnone => h.nothing (Shape.hoists_andThen.1 hnone).1)
    fun hordered T γ Γ g₀ hsound hheld => ?_
  simp only [Eval.last]
  refine (Matches.sim h (Shape.ordered_andThen.1 hordered).1 hsound hheld).weaken ?_ ?_
  · exact fun hw => by simp [Shape.andThen, Deeds.both, hw]
  · exact fun hw => by simp [Shape.andThen, Deeds.both, hw]

theorem Lasts.cons {next next' : Expr} {rest rest' : List Expr} (he : scene.Yields n n₁ a D₁ e e')
    (h : scene.Lasts n₁ n₂ b D₂ (next :: rest) (next' :: rest')) :
    scene.Lasts n n₂ (a.andThen b) (D₁ ++ D₂) (e :: next :: rest) (e' :: next' :: rest') := by
  refine Matches.mk' (he.le.trans h.le) (nothing_append he.nothing h.nothing) fun hordered T γ Γ g₀ hsound hheld => ?_
  obtain ⟨ha, hb, horder⟩ := Shape.ordered_andThen.1 hordered
  simp only [Eval.last_cons]
  refine (Matches.sim he ha hsound hheld).bind hheld ?_ (horder.imp h.nothing id)
  intro v T₁ _ hsound₁ _ hheld₁
  exact Matches.sim h hb hsound₁ hheld₁

theorem Chains.sequence {es es' : List Expr} (h : scene.Lasts n n' a D es es') (span : Span) :
    scene.Chains n n' a D (.sequence es span) (.sequence es' span) := by
  refine Matches.mk' h.le h.nothing fun hordered T γ Γ g₀ hsound hheld => ?_
  simp only [Eval.link]
  exact (Matches.sim h hordered hsound hheld).link hheld

/-! ## Positions -/

/-- Declarations stay inside a position that may not be reached. -/
theorem Yields.keep (hlaw : scene.Lawful counts) (h : scene.Yields n n' a D e e') :
    scene.Yields n n' (a.kept counts) [] e (if D.isEmpty then e' else thunk D e') := by
  refine Matches.mk' h.le (fun _ => rfl) fun hordered T γ Γ g₀ hsound hheld => ?_
  have hsim : scene.Sim T n n' a.deeds D _ Kind.unit () _ Kind.value := Matches.sim h hordered hsound rfl
  have hframe : scene.Sim T n n' (a.kept counts).deeds [] (orUndefined (Eval.link scene.reference e scene.env))
      Kind.unit () (fun m _ σ => orUndefined (Eval.link (scene.settled m) (if D.isEmpty then e' else thunk D e') σ))
      Kind.value := by
    by_cases hD : D = []
    · subst hD
      refine hsim.weaken (fun hw => hw) fun hc => ?_
      simp [Shape.kept, hc]
    · have hempty : D.isEmpty = false := by
        cases D with
        | nil => exact absurd rfl hD
        | cons d D => rfl
      have hhoists : a.hoists = true := by
        by_contra hnone
        exact hD (h.nothing (by simpa using hnone))
      simp only [hempty, Bool.false_eq_true, if_false]
      refine hsim.imp fun T' v M X B hpart => ⟨_, _, _, hpart.enclose fun hcalls => ?_⟩
      refine hlaw.deaf ?_
      rw [hhoists, Bool.and_true, Bool.or_eq_false_iff] at hcalls
      exact hcalls.2
  exact hframe.congr fun β g' _ => ⟨(), rfl, fun _ _ => rfl⟩

/-- The object of a member access moves in front if it is pending. -/
theorem Chains.move (h : scene.Chains n n' a D e (awaited e'))
    (hvalued : scene.Valued e) (span : Span) : scene.Chains n (n' + 1) (a.object true)
      (D ++ [temporaryStmt n' e']) e (.identifier (temporaryName n') span) := by
  refine Matches.mk' (h.le.trans (Nat.le_succ n')) (fun hnone => nomatch hnone)
    fun hordered T γ Γ g₀ hsound hheld => ?_
  have hboth : a.ordered = true ∧ a.deeds.writes = false := by
    have hand : (a.ordered && !a.deeds.writes) = true := hordered
    simpa using hand
  have hsim : scene.Sim T n n' a.deeds D _ Kind.unit () _ Kind.value.option :=
    Matches.sim h hboth.1 hsound rfl
  obtain ⟨r, T', hrun, hok⟩ := hsim
  have hmoved : scene.Sim T n (n' + 1) Deeds.none (D ++ [temporaryStmt n' e'])
      (Eval.link scene.reference e scene.env) Kind.unit ()
      (fun m _ σ => Eval.link (scene.settled m) (.identifier (temporaryName n') span) σ) Kind.value.option := by
    refine ⟨r, T', hrun, fun v hv => ?_⟩
    obtain ⟨hsound', hwithin, hheld', M, X, B, hpart⟩ := hok v hv
    cases v with
    | none => exact absurd (hv ▸ hrun) (hvalued T T' hsound)
    | some v => exact ⟨hsound', hwithin, hheld', _, _, _, hpart.hoist hboth.2 span⟩
  exact hmoved.congr fun β g' _ => ⟨(), rfl, fun _ _ => rfl⟩

end Scene

end FieldScript
