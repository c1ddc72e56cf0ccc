import FieldScript.Proofs.Eval.Finish
import FieldScript.Proofs.Eval.Reads
import FieldScript.Proofs.Settle.Walk

/-!
# Two runs side by side

A body is run twice: as it was written, against functions that answer at once, and settled, against the
functions as they are. The first run is the reference. Its frames never change, because a body without
arrow functions declares nothing. The second run declares temporaries, and what it does is told without
a scheduler (`Lands`).

* `Kind`: how the results of the two runs correspond.
* `Reaches`: where the second run gets to, whatever number of steps it is given.
* `Scene.Sound`, `Scene.At`: what is known of the store of the first run, and of the stores of both.
* `Keeps`: a part of the second run changes no variables but temporaries of its own.
-/

namespace FieldScript

/-! ## Results -/

/-- How results of two runs correspond. -/
structure Kind (α : Type) where
  like : Pairing → α → α → Prop
  mono : ∀ {β β' : Pairing} {a b : α}, β ≤ β' → like β a b → like β' a b
  /-- What a store holds corresponds as seen from that store. -/
  within : ∀ {β : Pairing} {s : Store} {a b : α}, like s.self a a → like β a b → like (β.within s) a b

namespace Kind

/-- A store holds all values of a result. -/
def Held {α : Type} (κ : Kind α) (s : Store) (a : α) : Prop := κ.like s.self a a

theorem Held.mono {α : Type} {κ : Kind α} {s t : Store} {a : α} (hle : s.Within t) (h : κ.Held s a) :
    κ.Held t a := Kind.mono κ (Store.self_mono hle) h

/-- Results without cells. -/
def same (α : Type) : Kind α := ⟨fun _ => Eq, fun _ h => h, fun _ h => h⟩

def value : Kind Value := ⟨Value.Like, Value.Like.mono, Value.Like.within⟩

/-- Results of which some are left out. -/
def option {α : Type} (κ : Kind α) : Kind (Option α) where
  like β := Option.Rel (κ.like β)
  mono hle h := by
    cases h with
    | some h => exact .some (κ.mono hle h)
    | none => exact .none
  within hheld h := by
    cases h with
    | some h =>
        cases hheld with
        | some hheld => exact .some (κ.within hheld h)
    | none => exact .none

/-- Several results. -/
def list {α : Type} (κ : Kind α) : Kind (List α) where
  like β := List.Forall₂ (κ.like β)
  mono hle h := h.imp fun _ _ h => κ.mono hle h
  within hheld h := ((List.forall₂_and_left _ _).2 ⟨List.forall₂_same.1 hheld, h⟩).imp
    fun _ _ h => κ.within h.1 h.2

/-- An entry of an object. -/
def entry : Kind (String × Value) where
  like := Value.LikeEntry
  mono hle h := h.mono hle
  within hheld h := ⟨h.1, h.2.within hheld.2⟩

/-- Two results. -/
def pair {α γ : Type} (κ : Kind α) (μ : Kind γ) : Kind (α × γ) where
  like β a b := κ.like β a.1 b.1 ∧ μ.like β a.2 b.2
  mono hle h := ⟨κ.mono hle h.1, μ.mono hle h.2⟩
  within hheld h := ⟨κ.within hheld.1 h.1, μ.within hheld.2 h.2⟩

/-- The same relation read through functions. -/
def comap {α γ : Type} (φ : γ → α) (κ : Kind α) : Kind γ where
  like β a b := κ.like β (φ a) (φ b)
  mono hle h := κ.mono hle h
  within hheld h := κ.within hheld h

end Kind

/-! ## Where a run gets to -/

/-- Where a computation gets to, whatever number of steps it is given. -/
def Reaches {α : Type} (run : Nat → Job → Comp Value) (x : Nat → Suspension α) (r : Except Halt α)
    (t : Store) : Prop :=
  ∃ k, ∀ m, Lands (run m) k (x m) r t

section

variable {run : Nat → Job → Comp Value} {α γ : Type} {x : Nat → Suspension α} {s t : Store}

theorem Reaches.done {r : Except Halt α} : Reaches run (fun _ => .done r s) r s :=
  ⟨0, fun _ => Lands.done r s⟩

theorem Reaches.bind {a : α} {f : Nat → α → Store → Suspension γ} {r : Except Halt γ}
    (hx : Reaches run x (.ok a) s) (hf : Reaches run (fun m => f m a s) r t) :
    Reaches run (fun m => (x m).bind (f m)) r t := by
  obtain ⟨k, hx⟩ := hx
  obtain ⟨l, hf⟩ := hf
  exact ⟨k + l, fun m => (hx m).bind (hf m)⟩

/-- An action that succeeds. -/
theorem Reaches.act {a : α} {act : Act α} (h : act.run s = (.ok a, t)) :
    Reaches run (fun _ => Comp.ofAct act s) (.ok a) t := by
  have heq : Comp.ofAct act s = .done (.ok a) t := by
    unfold Comp.ofAct
    rw [h]
  simp only [heq]
  exact Reaches.done

end

/-! ## Variables -/

/-- A name is none of the temporaries with numbers from one up to another. -/
def Outside (n n' : Nat) (name : String) : Prop :=
  ∀ k, n ≤ k → k < n' → name ≠ Settle.temporaryName k

/-- A name is that of no temporary. -/
def Ordinary (name : String) : Prop := ∀ k, name ≠ Settle.temporaryName k

theorem Ordinary.outside {name : String} (h : Ordinary name) (n n' : Nat) : Outside n n' name :=
  fun k _ _ => h k

theorem Outside.mono {n n' m m' : Nat} {name : String} (h : Outside n n' name) (hle : n ≤ m)
    (hle' : m' ≤ n') : Outside m m' name := fun k hk hk' => h k (by omega) (by omega)

theorem outside_self (n : Nat) (name : String) : Outside n n name := fun k hk hk' => by omega

theorem outside_temporaryName {n n' k : Nat} (h : k < n ∨ n' ≤ k) :
    Outside n n' (Settle.temporaryName k) := by
  intro l hl hl' heq
  have := Settle.temporaryName_injective heq
  omega

/-- A run from one store to another changes no variables but temporaries with numbers from one up to
another in the innermost frame of a scope. -/
structure Keeps (n n' : Nat) (σ : Scope) (S S' : Store) : Prop where
  size : S.frames.size ≤ S'.frames.size
  lookup : ∀ f : FrameRef, f.index < S.frames.size → ∀ name, (σ.head? = some f → Outside n n' name) →
    (S'.frame f).lookup name = (S.frame f).lookup name

namespace Keeps

variable {n n' n₁ m m' : Nat} {σ σ' : Scope} {S S₁ S' : Store}

theorem of_frames (h : S'.frames = S.frames) : Keeps n n' σ S S' := by
  refine ⟨by rw [h], fun f _ name _ => ?_⟩
  unfold Store.frame
  rw [h]

theorem refl (n n' : Nat) (σ : Scope) (S : Store) : Keeps n n' σ S S := of_frames rfl

theorem trans (h : Keeps n n' σ S S₁) (h' : Keeps n n' σ S₁ S') : Keeps n n' σ S S' := by
  refine ⟨Nat.le_trans h.size h'.size, fun f hf name hname => ?_⟩
  rw [h'.lookup f (Nat.lt_of_lt_of_le hf h.size) name hname, h.lookup f hf name hname]

theorem mono (h : Keeps m m' σ S S') (hle : n ≤ m) (hle' : m' ≤ n') : Keeps n n' σ S S' :=
  ⟨h.size, fun f hf name hname => h.lookup f hf name fun hhead => (hname hhead).mono hle hle'⟩

/-- A run that declares nothing keeps all variables, in whatever scope. -/
theorem weaken (h : Keeps n n σ S S') : Keeps m m' σ' S S' :=
  ⟨h.size, fun f hf name _ => h.lookup f hf name fun _ => outside_self n name⟩

theorem find? {name : String} (h : Keeps n n' σ S S') (hbounds : ∀ f ∈ σ', f.index < S.frames.size)
    (hname : Outside n n' name) : Scope.find? S' name σ' = Scope.find? S name σ' := by
  induction σ' with
  | nil => rfl
  | cons f σ' ih =>
      unfold Scope.find?
      rw [h.lookup f (hbounds f List.mem_cons_self) name fun _ => hname,
        ih fun f hf => hbounds f (List.mem_cons_of_mem _ hf)]

end Keeps

/-! ## The stores of both runs -/

theorem Scope.find?_congr {s t : Store} (h : s.frames = t.frames) (name : String) (σ : Scope) :
    Scope.find? s name σ = Scope.find? t name σ := by
  induction σ with
  | nil => rfl
  | cons f σ ih =>
      unfold Scope.find?
      rw [ih]
      unfold Store.frame
      rw [h]

/-- What two runs of a body have in common. -/
structure Scene where
  setting : Setting
  /-- The scope of the first run. -/
  env : Scope
  /-- The frames of the first run. -/
  frames : Array (List (String × Binding))
  /-- The number of steps of the first run. -/
  fuel : Nat
  /-- How the journals of the two runs correspond. -/
  hears : Journal → Journal → Prop

/-- An interface with the same answers, all given at once. -/
def Api.synchronous (api : Api) : Api :=
  { api with functions := api.functions.map fun (name, f) => (name, { f with isAsync := false }) }

namespace Scene

variable (scene : Scene)

/-- What the first run runs against. -/
def reference : Context :=
  { scene.setting with api := scene.setting.api.synchronous : Setting }.context scene.fuel

/-- What the second run runs against. -/
def settled (m : Nat) : Context := scene.setting.context (m + 1)

/-- What runs behind promises in the second run. -/
def run (m : Nat) : Job → Comp Value := (scene.settled m).runJob

/-- The variable of a name in the first run. -/
def binding? (name : String) : Option Binding :=
  Scope.find? { (Store.empty Journal.empty) with frames := scene.frames } name scene.env

/-- The store of the first run: its frames are as they were, and it holds whatever it refers to. -/
structure Sound (T : Store) : Prop where
  frames : T.frames = scene.frames
  closed : T.Closed
  data : T.Has (.object scene.setting.data.index)

/-- The stores of both runs in a scope of the second. The journal of the first run is kept apart, because
what a part of the second run does to its journal need not have happened in the first run yet. -/
structure At (A : Store) (j : Journal) (β : Pairing) (S : Store) (σ : Scope) : Prop where
  heap : Heap A β S
  data : β (.object scene.setting.data.index) (.object scene.setting.data.index)
  hears : scene.hears j S.journal
  inside : σ ≠ []
  bounds : ∀ f ∈ σ, f.index < S.frames.size
  names : ∀ name, Ordinary name → Scope.find? S name σ = scene.binding? name

/-- What the two runs rely on. If they are `strict`, the calls of the first run count; otherwise no answer
depends on earlier calls. -/
structure Lawful (strict : Bool) : Prop where
  deaf : strict = false → ∀ j s, scene.hears j s
  call : ∀ {j s : Journal}, scene.hears j s → ∀ (id id' : Nat) (name : String) (documents : List Json),
    scene.hears (j.record (.call id scene.setting.api.owner name documents))
      (s.record (.call id' scene.setting.api.owner name documents))
  answer : ∀ {j s : Journal}, scene.hears j s → ∀ {name : String} {f : HostFunction},
    scene.setting.api.get? name = some f → ∀ documents : List Json,
      (f.respond (j.callsOf scene.setting.api.owner name) documents).result =
        (f.respond (s.callsOf scene.setting.api.owner name) documents).result
  wait : ∀ {j s : Journal}, scene.hears j s → ∀ id : Nat,
    scene.hears j ((s.record (.start id)).record (.done id))
  /-- A function that does not answer at once is marked as such. -/
  marked : ∀ {name : String} {f : HostFunction}, scene.setting.api.get? name = some f →
    f.isAsync = true → scene.setting.capabilities.isAsync name = true
  constant : ∀ {name : String} {b : Binding}, scene.binding? name = some b → b.constant = true
  plain : ∀ {name : String} {b : Binding}, scene.binding? name = some b →
    b.value.cell? = none ∧ b.value.ofPromise = false
  unshadowed : ∀ {name : String}, scene.setting.capabilities.contains name = true →
    scene.binding? name = none

variable {scene} {T A A' S S' : Store} {j j' : Journal} {β β' : Pairing} {σ : Scope}

theorem Sound.find? (h : scene.Sound T) (name : String) :
    Scope.find? T name scene.env = scene.binding? name := Scope.find?_congr h.frames name scene.env

/-- What a part of the second run keeps of the scene. -/
theorem At.keep {n n' : Nat} (h : scene.At A j β S σ) (hheap : Heap A' β' S') (hle : β ≤ β')
    (hhears : scene.hears j' S'.journal) (hkeeps : Keeps n n' σ S S') : scene.At A' j' β' S' σ where
  heap := hheap
  data := hle _ _ h.data
  hears := hhears
  inside := h.inside
  bounds f hf := Nat.lt_of_lt_of_le (h.bounds f hf) hkeeps.size
  names name hname := (hkeeps.find? h.bounds (hname.outside n n')).trans (h.names name hname)

/-- The first run is further ahead. -/
theorem At.extend (h : scene.At A j β S σ) (hext : A.Extends A') : scene.At A' j β S σ :=
  { h with heap := h.heap.extend hext (Store.Extends.refl S) }

end Scene

end FieldScript
