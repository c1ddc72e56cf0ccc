import FieldScript.Proofs.Eval.Scene

/-!
# Parts of a run with their declarations in front

In a settled body, calls have moved into declarations in front of the statement. So a part of the run of
the body, the evaluation of an expression say, has two pieces in the settled run: the declarations (its
front), and what is left of the expression (its rest). Between them run the fronts of later parts and
the rests of earlier ones.

## Strategy

In the first run a part goes from a store `T` to a store `T'`. All that its front does has happened in
the first run by the time of a store `M` in between.

* `Front`: the declarations run while the first run is at `M`, or further ahead as far as cells are
  concerned, and bring about what the first run has called up to then.
* `Rest`: what is left takes both runs from `M` to `T'`. If the part changes no cells, the first run may
  already be ahead; if it makes no calls, the journals may be any.
* `Sim.bind`: one part behind another. The front of the second runs before the rest of the first, so
  either the second has no front or the first neither changes cells nor makes calls.
-/

namespace FieldScript

/-- What a part of a run may do besides reading and making new cells. -/
structure Deeds where
  writes : Bool
  calls : Bool

namespace Deeds

def none : Deeds := ⟨false, false⟩

def both (d e : Deeds) : Deeds := ⟨d.writes || e.writes, d.calls || e.calls⟩

theorem both_none (d : Deeds) : d.both none = d := by simp [both, none]

end Deeds

/-- The stores of the first run at the two ends of a rest. If no cells change, the first run may be ahead
of it. -/
inductive Reach (M T' : Store) : Bool → Store → Store → Prop where
  | ahead {A : Store} (h : T'.Extends A) : Reach M T' false A A
  | exact : Reach M T' true M T'

/-- The journals of the first run at the two ends of a rest. If no calls are made, they may be any. -/
inductive Hear (m m' : Journal) : Bool → Journal → Journal → Prop where
  | any (j : Journal) : Hear m m' false j j
  | exact : Hear m m' true m m'

/-- The temporaries of a front and the values of the first run that they hold. -/
abbrev Temporaries := List (Nat × Value)

/-- The temporaries are bound. -/
def Temporaries.Bound (B : Temporaries) (β : Pairing) (S : Store) (σ : Scope) : Prop :=
  ∀ b ∈ B, ∃ u, Scope.find? S (Settle.temporaryName b.1) σ = some u ∧ b.2.Like β u.value

namespace Scene

variable (scene : Scene)

/-- The declarations of a part run in front. -/
def Front (n n' : Nat) (T M : Store) (X : Cell → Prop) (B : Temporaries) (D : List Stmt) : Prop :=
  ∀ A β S σ, M.Extends A → scene.At A T.journal β S σ → (∀ x z, β x z → ¬T.Between M x) →
    ∃ β' S', Reaches scene.run (fun m => Eval.stmts (scene.settled m) D σ S) (.ok .normal) S' ∧
      scene.At A M.journal β' S' σ ∧ β ≤ β' ∧ (∀ x z, β' x z → β x z ∨ X x) ∧ B.Bound β' S' σ ∧
      Keeps n n' σ S S'

/-- What is left of a part behind its declarations. It is a function of what was computed before. -/
def Rest {γ α : Type} (deeds : Deeds) (T M T' : Store) (X : Cell → Prop) (B : Temporaries)
    (Γ : Kind γ) (g₀ : γ) (y : Nat → γ → Scope → Comp α) (κ : Kind α) (a : α) : Prop :=
  ∀ A A' j j' β S σ g, Reach M T' deeds.writes A A' → Hear M.journal T'.journal deeds.calls j j' →
    scene.At A j β S σ → B.Bound β S σ → (∀ x z, β x z → T.Between T' x → X x) → Γ.like β g₀ g →
    ∃ β' S' b, Reaches scene.run (fun m => y m g σ S) (.ok b) S' ∧ scene.At A' j' β' S' σ ∧ β ≤ β' ∧
      (∀ x z, β' x z → β x z ∨ T.Between T' x) ∧ Keeps 0 0 σ S S' ∧ κ.like β' a b

/-- A part of a run that leads the first run from one store to another, with a result. -/
structure Part {γ α : Type} (n n' : Nat) (deeds : Deeds) (T M T' : Store) (X : Cell → Prop)
    (B : Temporaries) (D : List Stmt) (Γ : Kind γ) (g₀ : γ) (y : Nat → γ → Scope → Comp α) (κ : Kind α)
    (a : α) : Prop where
  le : n ≤ n'
  start : T.Extends M
  goes : M.Within T'
  still : deeds.writes = false → M.Extends T'
  quiet : deeds.calls = false → ∀ s, scene.hears M.journal s → scene.hears T'.journal s
  nothing : D = [] → M = T ∧ X = (fun _ => False) ∧ B = []
  cells : ∀ x, X x → T.Between M x
  numbers : ∀ b ∈ B, n ≤ b.1 ∧ b.1 < n'
  front : scene.Front n n' T M X B D
  rest : scene.Rest deeds T M T' X B Γ g₀ y κ a

/-- A computation of the first run, and what has become of it in the second. -/
def Sim {γ α : Type} (T : Store) (n n' : Nat) (deeds : Deeds) (D : List Stmt) (x : Comp α) (Γ : Kind γ)
    (g₀ : γ) (y : Nat → γ → Scope → Comp α) (κ : Kind α) : Prop :=
  ∃ r T', x T = .done r T' ∧ ∀ a, r = .ok a → scene.Sound T' ∧ T.Within T' ∧ κ.Held T' a ∧
    ∃ M X B, scene.Part n n' deeds T M T' X B D Γ g₀ y κ a

end Scene

/-! ## Fewer promises -/

section

variable {scene : Scene} {M T' A A' : Store} {writes writes' calls calls' : Bool} {m m' j j' : Journal}

theorem Reach.weaken (h : Reach M T' writes' A A') (hle : writes = true → writes' = true)
    (hstill : writes = false → M.Extends T') : ∃ A₁, A.Extends A₁ ∧ Reach M T' writes A₁ A' := by
  cases writes with
  | true =>
      rw [hle rfl] at h
      cases h with
      | exact => exact ⟨M, Store.Extends.refl M, .exact⟩
  | false =>
      cases h with
      | ahead hext => exact ⟨A, Store.Extends.refl A, .ahead hext⟩
      | exact => exact ⟨T', hstill rfl, .ahead (Store.Extends.refl T')⟩

theorem Hear.weaken {s : Journal} (h : Hear m m' calls' j j') (hle : calls = true → calls' = true)
    (hquiet : calls = false → ∀ s, scene.hears m s → scene.hears m' s) (hhears : scene.hears j s) :
    ∃ j₁, scene.hears j₁ s ∧ Hear m m' calls j₁ j' := by
  cases calls with
  | true =>
      rw [hle rfl] at h
      cases h with
      | exact => exact ⟨m, hhears, .exact⟩
  | false =>
      cases h with
      | any => exact ⟨j, hhears, .any j⟩
      | exact => exact ⟨m', hquiet rfl s hhears, .any m'⟩

end

section

variable {scene : Scene} {γ α : Type} {n n' : Nat} {deeds deeds' : Deeds} {T M T' : Store}
  {X : Cell → Prop} {B : Temporaries} {D : List Stmt} {Γ : Kind γ} {g₀ : γ}
  {y : Nat → γ → Scope → Comp α} {κ : Kind α} {a : α} {x : Comp α}

/-- The front of a part without declarations. -/
theorem Scene.front_nil : scene.Front n n' T T (fun _ => False) [] [] := by
  intro A β S σ hext hat _
  refine ⟨β, S, Reaches.done, hat, fun _ _ h => h, fun x z h => .inl h, ?_, Keeps.refl n n' σ S⟩
  intro b hb
  cases hb

theorem Temporaries.Bound.mono {β β' : Pairing} {S S' : Store} {σ : Scope} {m m' : Nat}
    (h : B.Bound β S σ) (hle : β ≤ β') (hkeeps : Keeps m m' σ S S')
    (hbounds : ∀ f ∈ σ, f.index < S.frames.size) (hnumbers : ∀ b ∈ B, b.1 < m ∨ m' ≤ b.1) :
    B.Bound β' S' σ := by
  intro b hb
  obtain ⟨u, hu, hlike⟩ := h b hb
  refine ⟨u, ?_, hlike.mono hle⟩
  rw [hkeeps.find? hbounds (outside_temporaryName (hnumbers b hb))]
  exact hu

/-- A part may be taken for one that does more. -/
theorem Scene.Part.weaken (h : scene.Part n n' deeds T M T' X B D Γ g₀ y κ a)
    (hwrites : deeds.writes = true → deeds'.writes = true)
    (hcalls : deeds.calls = true → deeds'.calls = true) :
    scene.Part n n' deeds' T M T' X B D Γ g₀ y κ a := by
  have hstill : deeds'.writes = false → deeds.writes = false := by
    intro h
    by_contra hw
    simp [hwrites (by simpa using hw)] at h
  have hquiet : deeds'.calls = false → deeds.calls = false := by
    intro h
    by_contra hc
    simp [hcalls (by simpa using hc)] at h
  refine { h with still := fun hw => h.still (hstill hw), quiet := fun hc => h.quiet (hquiet hc),
                  rest := ?_ }
  intro A A' j j' β S σ g hreach hhear hat hbound honly hlike
  obtain ⟨A₁, hext, hreach⟩ := hreach.weaken hwrites h.still
  obtain ⟨j₁, hhears, hhear⟩ := hhear.weaken hcalls h.quiet hat.hears
  have hat₁ : scene.At A₁ j₁ β S σ := { hat.extend hext with hears := hhears }
  exact h.rest A₁ A' j₁ j' β S σ g hreach hhear hat₁ hbound honly hlike

/-- A part may be taken for one with more temporaries. -/
theorem Scene.Part.widen {m m' : Nat} (h : scene.Part n n' deeds T M T' X B D Γ g₀ y κ a) (hle : m ≤ n)
    (hle' : n' ≤ m') : scene.Part m m' deeds T M T' X B D Γ g₀ y κ a := by
  have hn := h.le
  refine { h with le := by omega, numbers := fun b hb => ?_, front := ?_ }
  · have := h.numbers b hb
    omega
  · intro A β S σ hext hat hnone
    obtain ⟨β', S', hrun, hat', hβ, hnew, hbound, hkeeps⟩ := h.front A β S σ hext hat hnone
    exact ⟨β', S', hrun, hat', hβ, hnew, hbound, hkeeps.mono hle hle'⟩

/-- A part without declarations has no temporaries in front. -/
theorem Scene.Part.rerange {m m' : Nat} (h : scene.Part n n' deeds T M T' X B [] Γ g₀ y κ a) (hle : m ≤ m') :
    scene.Part m m' deeds T M T' X B [] Γ g₀ y κ a := by
  obtain ⟨rfl, rfl, rfl⟩ := h.nothing rfl
  exact { h with le := hle, numbers := (fun b hb => nomatch hb), front := front_nil }

/-- What is left of a part may be written in another way, and depend on other things. -/
theorem Scene.Part.congr {γ' : Type} {Γ' : Kind γ'} {g₀' : γ'} {y' : Nat → γ' → Scope → Comp α}
    (h : scene.Part n n' deeds T M T' X B D Γ g₀ y κ a)
    (heq : ∀ β g', Γ'.like β g₀' g' → ∃ g, Γ.like β g₀ g ∧ ∀ m σ, y' m g' σ = y m g σ) :
    scene.Part n n' deeds T M T' X B D Γ' g₀' y' κ a := by
  refine { h with rest := ?_ }
  intro A A' j j' β S σ g' hreach hhear hat hbound honly hlike
  obtain ⟨g, hlike, hy⟩ := heq β g' hlike
  simp only [hy]
  exact h.rest A A' j j' β S σ g hreach hhear hat hbound honly hlike

end

/-! ## One part behind another -/

/-- Goes on unless a statement ended otherwise than normally. -/
def Completion.andThen (completion : Completion) (next : Comp Completion) : Comp Completion :=
  match completion with
  | .normal => next
  | other => return other

namespace Eval

theorem stmts_cons (c : Context) (s : Stmt) (rest : List Stmt) (σ : Scope) :
    stmts c (s :: rest) σ = stmt c s σ >>= fun x => x.andThen (stmts c rest σ) := by
  rw [stmts]
  rfl

theorem stmts_append (c : Context) (ss rest : List Stmt) (σ : Scope) :
    stmts c (ss ++ rest) σ = stmts c ss σ >>= fun x => x.andThen (stmts c rest σ) := by
  induction ss with
  | nil =>
      rw [stmts]
      rfl
  | cons s ss ih =>
      rw [List.cons_append, stmts_cons, stmts_cons, ih, bind_assoc]
      congr 1
      funext x
      cases x <;> rfl

end Eval

section

variable {scene : Scene} {n n₁ n₂ : Nat} {T M T₁ M₂ : Store} {X₁ X₂ : Cell → Prop} {B₁ B₂ : Temporaries}
  {D₁ D₂ : List Stmt}

theorem Reaches.stmts_append {σ : Scope} {S S₁ S₂ : Store} {x : Completion}
    (h₁ : Reaches scene.run (fun m => Eval.stmts (scene.settled m) D₁ σ S) (.ok .normal) S₁)
    (h₂ : Reaches scene.run (fun m => Eval.stmts (scene.settled m) D₂ σ S₁) (.ok x) S₂) :
    Reaches scene.run (fun m => Eval.stmts (scene.settled m) (D₁ ++ D₂) σ S) (.ok x) S₂ := by
  simp only [Eval.stmts_append]
  exact Reaches.bind (f := fun m x => x.andThen (Eval.stmts (scene.settled m) D₂ σ)) h₁ h₂

/-- Declarations behind declarations, if the first run does nothing in between but make new cells. -/
theorem Scene.Front.append (h₁ : scene.Front n n₁ T M X₁ B₁ D₁) (h₂ : scene.Front n₁ n₂ T₁ M₂ X₂ B₂ D₂)
    (hle : n ≤ n₁) (hle' : n₁ ≤ n₂) (hstart : T.Within T₁) (hstill : M.Extends T₁)
    (hquiet : ∀ s, scene.hears M.journal s → scene.hears T₁.journal s) (hnext : T₁.Extends M₂)
    (hcells : ∀ x, X₁ x → T.Between M x) (hnumbers : ∀ b ∈ B₁, n ≤ b.1 ∧ b.1 < n₁) :
    scene.Front n n₂ T M₂ (fun x => X₁ x ∨ X₂ x) (B₁ ++ B₂) (D₁ ++ D₂) := by
  intro A β S σ hext hat hnone
  have hextM : M.Extends A := (hstill.trans hnext).trans hext
  obtain ⟨β₁, S₁, hrun₁, hat₁, hβ₁, hnew₁, hbound₁, hkeeps₁⟩ := h₁ A β S σ hextM hat
    fun x z hx hbetween => hnone x z hx (hbetween.left (hstill.trans hnext).within)
  have hat₁' : scene.At A T₁.journal β₁ S₁ σ := { hat₁ with hears := hquiet _ hat₁.hears }
  have hnone₁ : ∀ x z, β₁ x z → ¬T₁.Between M₂ x := by
    intro x z hx hbetween
    rcases hnew₁ x z hx with hx | hx
    · exact hnone x z hx (hbetween.right hstart)
    · exact hbetween.2 (hstill.within x (hcells x hx).1)
  obtain ⟨β₂, S₂, hrun₂, hat₂, hβ₂, hnew₂, hbound₂, hkeeps₂⟩ := h₂ A β₁ S₁ σ hext hat₁' hnone₁
  refine ⟨β₂, S₂, hrun₁.stmts_append hrun₂, hat₂, hβ₁.trans hβ₂, ?_, ?_, ?_⟩
  · intro x z hx
    rcases hnew₂ x z hx with hx | hx
    · rcases hnew₁ x z hx with hx | hx
      · exact .inl hx
      · exact .inr (.inl hx)
    · exact .inr (.inr hx)
  · intro b hb
    rcases List.mem_append.1 hb with hb | hb
    · exact hbound₁.mono hβ₂ hkeeps₂ hat₁.bounds (fun b hb => .inl (hnumbers b hb).2) b hb
    · exact hbound₂ b hb
  · exact (hkeeps₁.mono (Nat.le_refl _) hle').trans (hkeeps₂.mono hle (Nat.le_refl _))

end

section

variable {scene : Scene} {γ α δ : Type} {n n₁ n₂ : Nat} {deeds deeds₁ deeds₂ : Deeds}
  {T M M₂ T₁ T₂ A A' : Store} {X X₂ : Cell → Prop} {B B₂ : Temporaries} {D D₂ : List Stmt} {Γ : Kind γ}
  {g₀ : γ} {y₁ : Nat → γ → Scope → Comp α} {κ : Kind α} {a : α}
  {y₂ : Nat → γ × α → Scope → Comp δ} {μ : Kind δ} {d : δ}

theorem Reach.split {writes : Bool} (h : Reach M T₂ writes A A')
    (hstill : writes = false → T₁.Extends T₂) :
    ∃ A₁, Reach M T₁ writes A A₁ ∧ Reach T₁ T₂ writes A₁ A' := by
  cases h with
  | ahead hext => exact ⟨A, .ahead ((hstill rfl).trans hext), .ahead hext⟩
  | exact => exact ⟨T₁, .exact, .exact⟩

theorem Reach.extends_left {writes : Bool} (h : Reach M T₂ writes A A')
    (hstill : writes = false → M.Extends T₂) : M.Extends A := by
  cases h with
  | ahead hext => exact (hstill rfl).trans hext
  | exact => exact Store.Extends.refl M

theorem Hear.split {m m₁ m₂ j j' : Journal} {calls : Bool} (h : Hear m m₂ calls j j') :
    ∃ j₁, Hear m m₁ calls j j₁ ∧ Hear m₁ m₂ calls j₁ j' := by
  cases h with
  | any => exact ⟨j, .any j, .any j⟩
  | exact => exact ⟨m₁, .exact, .exact⟩

/-- A part without declarations behind another part. -/
theorem Scene.Part.bind_plain (h₁ : scene.Part n n₁ deeds T M T₁ X B D Γ g₀ y₁ κ a)
    (h₂ : scene.Part n₁ n₂ deeds T₁ T₁ T₂ (fun _ => False) [] [] (Γ.pair κ) (g₀, a) y₂ μ d) :
    scene.Part n n₂ deeds T M T₂ X B D Γ g₀
      (fun m g σ => y₁ m g σ >>= fun b => y₂ m (g, b) σ) μ d := by
  have hstart : T.Within T₁ := h₁.start.within.trans h₁.goes
  have hle := h₁.le
  have hle' := h₂.le
  refine ⟨by omega, h₁.start, h₁.goes.trans h₂.goes, fun hw => (h₁.still hw).trans (h₂.still hw),
    fun hc s hs => h₂.quiet hc s (h₁.quiet hc s hs), h₁.nothing, h₁.cells, fun b hb => ?_, ?_, ?_⟩
  · have := h₁.numbers b hb
    omega
  · exact (h₁.widen (Nat.le_refl n) hle').front
  · intro A A' j j' β S σ g hreach hhear hat hbound honly hlike
    obtain ⟨A₁, hreach₁, hreach₂⟩ := hreach.split h₂.still
    obtain ⟨j₁, hhear₁, hhear₂⟩ := hhear.split
    obtain ⟨β₁, S₁, b, hrun₁, hat₁, hβ₁, hnew₁, hkeeps₁, hlike₁⟩ :=
      h₁.rest A A₁ j j₁ β S σ g hreach₁ hhear₁ hat hbound
        (fun x z hx hbetween => honly x z hx (hbetween.left h₂.goes)) hlike
    have honly₂ : ∀ x z, β₁ x z → T₁.Between T₂ x → False := by
      intro x z hx hbetween
      rcases hnew₁ x z hx with hx | hx
      · have hX := honly x z hx (hbetween.right hstart)
        exact hbetween.2 (h₁.goes x (h₁.cells x hX).1)
      · exact hbetween.2 hx.1
    obtain ⟨β₂, S₂, c, hrun₂, hat₂, hβ₂, hnew₂, hkeeps₂, hlike₂⟩ :=
      h₂.rest A₁ A' j₁ j' β₁ S₁ σ (g, b) hreach₂ hhear₂ hat₁ (fun b hb => nomatch hb) honly₂
        ⟨Γ.mono hβ₁ hlike, hlike₁⟩
    refine ⟨β₂, S₂, c, ?_, hat₂, hβ₁.trans hβ₂, ?_, ?_, hlike₂⟩
    · exact Reaches.bind (f := fun m b => y₂ m (g, b) σ) hrun₁ hrun₂
    · intro x z hx
      rcases hnew₂ x z hx with hx | hx
      · rcases hnew₁ x z hx with hx | hx
        · exact .inl hx
        · exact .inr (hx.left h₂.goes)
      · exact .inr (hx.right hstart)
    · exact hkeeps₁.trans hkeeps₂

/-- A part with declarations behind a part that neither changes cells nor makes calls. -/
theorem Scene.Part.bind_ahead (h₁ : scene.Part n n₁ Deeds.none T M T₁ X B D Γ g₀ y₁ κ a)
    (h₂ : scene.Part n₁ n₂ deeds T₁ M₂ T₂ X₂ B₂ D₂ (Γ.pair κ) (g₀, a) y₂ μ d) (hne : D₂ ≠ []) :
    scene.Part n n₂ deeds T M₂ T₂ (fun x => X x ∨ X₂ x) (B ++ B₂) (D ++ D₂) Γ g₀
      (fun m g σ => y₁ m g σ >>= fun b => y₂ m (g, b) σ) μ d := by
  have hstart : T.Within T₁ := h₁.start.within.trans h₁.goes
  have hstill : M.Extends T₁ := h₁.still rfl
  have hgoes : T₁.Within T₂ := h₂.start.within.trans h₂.goes
  have hle := h₁.le
  have hle' := h₂.le
  refine ⟨by omega, (h₁.start.trans hstill).trans h₂.start, h₂.goes, h₂.still, h₂.quiet, fun hD => ?_,
    ?_, ?_, ?_, ?_⟩
  · exact absurd (List.append_eq_nil_iff.1 hD).2 hne
  · rintro x (hx | hx)
    · exact ⟨(hstill.trans h₂.start).within x (h₁.cells x hx).1, (h₁.cells x hx).2⟩
    · exact (h₂.cells x hx).right hstart
  · intro b hb
    rcases List.mem_append.1 hb with hb | hb
    · have := h₁.numbers b hb
      omega
    · have := h₂.numbers b hb
      omega
  · exact h₁.front.append h₂.front hle hle' hstart hstill (h₁.quiet rfl) h₂.start h₁.cells h₁.numbers
  · intro A A' j j' β S σ g hreach hhear hat hbound honly hlike
    -- the first run is ahead of the first part: it has come to the second one
    have hext : T₁.Extends A := h₂.start.trans (hreach.extends_left h₂.still)
    have hbound₁ : B.Bound β S σ := fun b hb => hbound b (List.mem_append_left _ hb)
    have hbound₂ : B₂.Bound β S σ := fun b hb => hbound b (List.mem_append_right _ hb)
    have honly₁ : ∀ x z, β x z → T.Between T₁ x → X x := by
      intro x z hx hbetween
      rcases honly x z hx (hbetween.left hgoes) with hX | hX
      · exact hX
      · exact absurd hbetween.1 (h₂.cells x hX).2
    obtain ⟨β₁, S₁, b, hrun₁, hat₁, hβ₁, hnew₁, hkeeps₁, hlike₁⟩ :=
      h₁.rest A A j j β S σ g (.ahead hext) (.any j) hat hbound₁ honly₁ hlike
    have honly₂ : ∀ x z, β₁ x z → T₁.Between T₂ x → X₂ x := by
      intro x z hx hbetween
      rcases hnew₁ x z hx with hx | hx
      · rcases honly x z hx (hbetween.right hstart) with hX | hX
        · exact absurd (h₁.goes x (h₁.cells x hX).1) hbetween.2
        · exact hX
      · exact absurd hx.1 hbetween.2
    obtain ⟨β₂, S₂, c, hrun₂, hat₂, hβ₂, hnew₂, hkeeps₂, hlike₂⟩ :=
      h₂.rest A A' j j' β₁ S₁ σ (g, b) hreach hhear hat₁ (hbound₂.mono hβ₁ hkeeps₁ hat.bounds fun _ _ => .inr (Nat.zero_le _))
        honly₂ ⟨Γ.mono hβ₁ hlike, hlike₁⟩
    refine ⟨β₂, S₂, c, ?_, hat₂, hβ₁.trans hβ₂, ?_, ?_, hlike₂⟩
    · exact Reaches.bind (f := fun m b => y₂ m (g, b) σ) hrun₁ hrun₂
    · intro x z hx
      rcases hnew₂ x z hx with hx | hx
      · rcases hnew₁ x z hx with hx | hx
        · exact .inl hx
        · exact .inr (hx.left hgoes)
      · exact .inr (hx.right hstart)
    · exact hkeeps₁.trans hkeeps₂

end

/-! ## Simulations -/

namespace Scene.Sim

variable {scene : Scene} {γ α δ : Type} {n n' n₁ n₂ : Nat} {deeds deeds' deeds₁ deeds₂ : Deeds} {T : Store}
  {D D₂ : List Stmt} {Γ : Kind γ} {g₀ : γ} {x : Comp α} {f : α → Comp δ} {y : Nat → γ → Scope → Comp α}
  {y₂ : Nat → γ → α → Scope → Comp δ} {κ : Kind α} {μ : Kind δ}

/-- A change of the part changes the simulation. -/
theorem imp {γ' : Type} {Γ' : Kind γ'} {g₀' : γ'} {y' : Nat → γ' → Scope → Comp α} {D' : List Stmt}
    {m m' : Nat} (h : scene.Sim T n n' deeds D x Γ g₀ y κ)
    (himp : ∀ T' a M X B, scene.Part n n' deeds T M T' X B D Γ g₀ y κ a → ∃ M X B,
      scene.Part m m' deeds' T M T' X B D' Γ' g₀' y' κ a) :
    scene.Sim T m m' deeds' D' x Γ' g₀' y' κ := by
  obtain ⟨r, T', hrun, hok⟩ := h
  refine ⟨r, T', hrun, fun a ha => ?_⟩
  obtain ⟨hsound, hwithin, hheld, M, X, B, hpart⟩ := hok a ha
  exact ⟨hsound, hwithin, hheld, himp T' a M X B hpart⟩

theorem weaken (h : scene.Sim T n n' deeds D x Γ g₀ y κ)
    (hwrites : deeds.writes = true → deeds'.writes = true)
    (hcalls : deeds.calls = true → deeds'.calls = true) : scene.Sim T n n' deeds' D x Γ g₀ y κ :=
  h.imp fun _ _ M X B hpart => ⟨M, X, B, hpart.weaken hwrites hcalls⟩

/-- What does nothing is allowed any deeds. -/
theorem weaken_none (h : scene.Sim T n n' Deeds.none D x Γ g₀ y κ) : scene.Sim T n n' deeds D x Γ g₀ y κ :=
  h.weaken (fun hwrites => Bool.noConfusion hwrites) fun hcalls => Bool.noConfusion hcalls

theorem widen (h : scene.Sim T n n' deeds D x Γ g₀ y κ) (hle : n₁ ≤ n) (hle' : n' ≤ n₂) :
    scene.Sim T n₁ n₂ deeds D x Γ g₀ y κ :=
  h.imp fun _ _ M X B hpart => ⟨M, X, B, hpart.widen hle hle'⟩

theorem rerange (h : scene.Sim T n n' deeds [] x Γ g₀ y κ) (hle : n₁ ≤ n₂) :
    scene.Sim T n₁ n₂ deeds [] x Γ g₀ y κ :=
  h.imp fun _ _ M X B hpart => ⟨M, X, B, hpart.rerange hle⟩

theorem congr {γ' : Type} {Γ' : Kind γ'} {g₀' : γ'} {y' : Nat → γ' → Scope → Comp α}
    (h : scene.Sim T n n' deeds D x Γ g₀ y κ)
    (heq : ∀ β g', Γ'.like β g₀' g' → ∃ g, Γ.like β g₀ g ∧ ∀ m σ, y' m g' σ = y m g σ) :
    scene.Sim T n n' deeds D x Γ' g₀' y' κ :=
  h.imp fun _ _ M X B hpart => ⟨M, X, B, hpart.congr heq⟩

/-- Computations that run alike wherever they are run. -/
theorem rerun {x' : Comp α} {y' : Nat → γ → Scope → Comp α} (h : scene.Sim T n n' deeds D x Γ g₀ y κ)
    (hx : x' T = x T)
    (hy : ∀ A j β S σ g, scene.At A j β S σ → Γ.like β g₀ g → ∀ m, y' m g σ S = y m g σ S) :
    scene.Sim T n n' deeds D x' Γ g₀ y' κ := by
  obtain ⟨r, T', hrun, hok⟩ := h
  refine ⟨r, T', hx.trans hrun, fun a ha => ?_⟩
  obtain ⟨hsound, hwithin, hheld, M, X, B, hpart⟩ := hok a ha
  refine ⟨hsound, hwithin, hheld, M, X, B, { hpart with rest := ?_ }⟩
  intro A A' j j' β S σ g hreach hhear hat hbound honly hlike
  simp only [hy A j β S σ g hat hlike]
  exact hpart.rest A A' j j' β S σ g hreach hhear hat hbound honly hlike

/-- One computation behind another. -/
theorem bind (h : scene.Sim T n n₁ deeds₁ D x Γ g₀ y κ) (hheld : Γ.Held T g₀)
    (hrest : ∀ a T₁, x T = .done (.ok a) T₁ → scene.Sound T₁ → T.Within T₁ → (Γ.pair κ).Held T₁ (g₀, a) →
      scene.Sim T₁ n₁ n₂ deeds₂ D₂ (f a) (Γ.pair κ) (g₀, a) (fun m g σ => y₂ m g.1 g.2 σ) μ)
    (horder : D₂ = [] ∨ deeds₁ = Deeds.none) :
    scene.Sim T n n₂ (deeds₁.both deeds₂) (D ++ D₂) (x >>= f) Γ g₀
      (fun m g σ => y m g σ >>= fun b => y₂ m g b σ) μ := by
  obtain ⟨r, T₁, hrun, hok⟩ := h
  cases r with
  | error e =>
      refine ⟨.error e, T₁, ?_, fun a ha => nomatch ha⟩
      show (x T).bind f = _
      rw [hrun]
      rfl
  | ok a =>
      obtain ⟨hsound, hwithin, hheld₁, M, X, B, hpart⟩ := hok a rfl
      obtain ⟨r, T₂, hrun₂, hok₂⟩ :=
        hrest a T₁ hrun hsound hwithin ⟨hheld.mono hwithin, hheld₁⟩
      refine ⟨r, T₂, ?_, fun b hb => ?_⟩
      · show (x T).bind f = _
        rw [hrun]
        exact hrun₂
      · obtain ⟨hsound₂, hwithin₂, hheld₂, M₂, X₂, B₂, hpart₂⟩ := hok₂ b hb
        refine ⟨hsound₂, hwithin.trans hwithin₂, hheld₂, ?_⟩
        by_cases hD₂ : D₂ = []
        · obtain ⟨rfl, rfl, rfl⟩ := hpart₂.nothing hD₂
          subst hD₂
          rw [List.append_nil]
          refine ⟨M, X, B, Part.bind_plain (hpart.weaken ?_ ?_) (hpart₂.weaken ?_ ?_)⟩
          all_goals
            intro h
            simp [Deeds.both, h]
        · obtain rfl := horder.resolve_left hD₂
          exact ⟨M₂, _, _, hpart.bind_ahead (hpart₂.weaken (by simp [Deeds.both, Deeds.none])
            (by simp [Deeds.both, Deeds.none])) hD₂⟩

/-- A step without declarations and deeds behind a computation. -/
theorem andThen (h : scene.Sim T n n₁ deeds D x Γ g₀ y κ) (hheld : Γ.Held T g₀)
    (hrest : ∀ a T₁, x T = .done (.ok a) T₁ → scene.Sound T₁ → T.Within T₁ → (Γ.pair κ).Held T₁ (g₀, a) →
      scene.Sim T₁ n₁ n₁ Deeds.none [] (f a) (Γ.pair κ) (g₀, a) (fun m g σ => y₂ m g.1 g.2 σ) μ) :
    scene.Sim T n n₁ deeds D (x >>= f) Γ g₀ (fun m g σ => y m g σ >>= fun b => y₂ m g b σ) μ := by
  have hbind := h.bind hheld hrest (.inl rfl)
  rw [Deeds.both_none, List.append_nil] at hbind
  exact hbind

/-- A computation behind a step without declarations and deeds. -/
theorem after (h : scene.Sim T n n₁ Deeds.none [] x Γ g₀ y κ) (hheld : Γ.Held T g₀)
    (hrest : ∀ a T₁, x T = .done (.ok a) T₁ → scene.Sound T₁ → T.Within T₁ → (Γ.pair κ).Held T₁ (g₀, a) →
      scene.Sim T₁ n₁ n₂ deeds D (f a) (Γ.pair κ) (g₀, a) (fun m g σ => y₂ m g.1 g.2 σ) μ) :
    scene.Sim T n n₂ deeds D (x >>= f) Γ g₀ (fun m g σ => y m g σ >>= fun b => y₂ m g b σ) μ :=
  h.bind hheld hrest (.inr rfl)

end Scene.Sim

end FieldScript
