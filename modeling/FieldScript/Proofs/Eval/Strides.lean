import FieldScript.Proofs.Eval.Inherited
import Mathlib.Data.Set.Basic
import Mathlib.Logic.Relation

/-!
# Who changes a frame

Parts of a body take turns: one runs until it has to wait, then others do, and when it goes on, the store is another
one. So a computation is told in *stretches*, each from one stop to the next, and in between the store moves on.

A frame is changed only by what sees it. The functions that see a frame come from what ran with it in its scope. All
else leaves the frame alone, unless it calls one of these functions.

## Strategy

* `Store.Onward`: what every run does to a store. Frames and functions stay where they are.
* `Store.Aside`: a stretch that leaves certain frames alone and makes no function that sees one.
* `Setting.Spares`: stretches of this kind, with stretches of functions that see one of the frames in between. As long
  as there are no such functions, the frames stay as they are (`Setting.Spares.frame_of_unseen`).
* `Suspension.Heeds`: all stretches of a computation are as a relation says.
* `Comp.heeds_inherited`: bodies have this from what they are put together from, if they run in a scope without the
  frames. It is used twice. With no frames at all it says that every run moves the store onward, and this is what the
  second use needs to know of functions that do see a frame.
* `Setting.callFunction_spares`, `Setting.runJob_spares`: so do all functions, and all that runs on its own.
-/

namespace FieldScript

/-! ## Stores over time -/

/-- A scope of frames that exist. -/
def Scope.Placed (scope : Scope) (s : Store) : Prop := ∀ f ∈ scope, f.index < s.frames.size

namespace Store

/-- All functions see frames that exist. -/
def Rooted (s : Store) : Prop := ∀ ref closure, s.closure? ref = some closure → closure.scope.Placed s

/-- A store at a later time: frames and functions are still there, and variables too, with whatever values. -/
structure Onward (s t : Store) : Prop where
  size : s.frames.size ≤ t.frames.size
  closure : ∀ {ref closure}, s.closure? ref = some closure → t.closure? ref = some closure
  rooted : s.Rooted → t.Rooted
  bound : ∀ f name, ((s.frame f).lookup name).isSome → ((t.frame f).lookup name).isSome

/-- A later store in which certain frames are as they were. No function has come that sees one of them. -/
structure Aside (kept : Set FrameRef) (s t : Store) : Prop extends Onward s t where
  frame : ∀ f ∈ kept, t.frame f = s.frame f
  unseen : ∀ ref closure, t.closure? ref = some closure →
    s.closure? ref = some closure ∨ ∀ f ∈ closure.scope, f ∉ kept

variable {s t u : Store} {kept : Set FrameRef} {scope : Scope}

theorem Onward.refl (s : Store) : Onward s s := ⟨Nat.le_refl _, id, id, fun _ _ => id⟩

theorem Onward.trans (h : Onward s t) (h' : Onward t u) : Onward s u where
  size := Nat.le_trans h.size h'.size
  closure hc := h'.closure (h.closure hc)
  rooted hs := h'.rooted (h.rooted hs)
  bound f name hname := h'.bound f name (h.bound f name hname)

theorem Onward.placed (h : Onward s t) (hscope : scope.Placed s) : scope.Placed t :=
  fun f hf => Nat.lt_of_lt_of_le (hscope f hf) h.size

namespace Aside

theorem refl (s : Store) : Aside kept s s := ⟨.refl s, fun _ _ => rfl, fun _ _ => .inl⟩

theorem trans (h : Aside kept s t) (h' : Aside kept t u) : Aside kept s u where
  toOnward := h.toOnward.trans h'.toOnward
  frame f hf := (h'.frame f hf).trans (h.frame f hf)
  unseen ref closure hc := by
    rcases h'.unseen ref closure hc with hc | hc
    · exact h.unseen ref closure hc
    · exact .inr hc

/-- Frames and functions are the same. -/
theorem of_varies (h : Varies scope s t) (hkept : ∀ f ∈ kept, f ∉ scope) : Aside kept s t := by
  have hclosure : ∀ ref, t.closure? ref = s.closure? ref := fun ref => by rw [closure?, closure?, h.closures]
  refine ⟨⟨h.size.ge, fun {ref _} hc => (hclosure ref).trans hc, fun hs => ?_, h.bound⟩,
    fun f hf => h.frame f (hkept f hf), fun ref _ hc => .inl ((hclosure ref).symm.trans hc)⟩
  intro ref closure hc f hf
  rw [h.size]
  exact hs ref closure ((hclosure ref).symm.trans hc) f hf

theorem of_frames (hclosures : t.closures = s.closures) (hframes : t.frames = s.frames) : Aside kept s t := by
  have hvaries : Varies [] s { t with journal := s.journal } :=
    .of_cells (by rw [behindCells, behindCells, hclosures, hframes])
  have haside : Aside kept s { t with journal := s.journal } := .of_varies hvaries fun _ _ => List.not_mem_nil
  exact ⟨⟨haside.size, haside.closure, haside.rooted, haside.bound⟩, haside.frame, haside.unseen⟩

theorem addFrame (hkept : ∀ f ∈ kept, f.index < s.frames.size) : Aside kept s s.addFrame.2 := by
  have hsize : s.addFrame.2.frames.size = s.frames.size + 1 := Array.size_push ..
  refine ⟨⟨by omega, id, fun hs ref closure hc f hf => ?_, fun f name hname => ?_⟩,
    fun f hf => frame_addFrame_ne (hkept f hf), fun _ _ => .inl⟩
  · have := hs ref closure hc f hf
    omega
  · by_cases hf : f.index < s.frames.size
    · rwa [frame_addFrame_ne hf]
    · have hempty : s.frame f = [] := by simp [Store.frame, Array.getElem?_eq_none (Nat.le_of_not_lt hf)]
      rw [hempty] at hname
      exact absurd hname Bool.false_ne_true

/-- A new frame with variables of another scope. -/
theorem renewed (names : List String) (current : Scope) (hkept : ∀ f ∈ kept, f.index < s.frames.size) :
    Aside kept s (Scope.copied names current ⟨s.frames.size⟩ s.addFrame.2) := by
  refine (addFrame hkept).trans (of_varies (Scope.copied_varies names current ⟨s.frames.size⟩ _) fun f hf hmem => ?_)
  have hbound := hkept f hf
  rw [List.mem_singleton.1 hmem] at hbound
  exact Nat.lt_irrefl _ hbound

theorem addClosure {closure : Closure} (hplaced : closure.scope.Placed s) (hkept : ∀ f ∈ kept, f ∉ closure.scope) :
    Aside kept s (s.addClosure closure).2 := by
  have hnew : ∀ ref other, (s.addClosure closure).2.closure? ref = some other →
      s.closure? ref = some other ∨ other = closure := by
    intro ref other hother
    have hpush : (s.closures.push closure)[ref.index]? = some other := hother
    rw [Array.getElem?_push] at hpush
    split at hpush
    · exact .inr (Option.some.inj hpush).symm
    · exact .inl hpush
  refine ⟨⟨Nat.le_refl _, fun {ref other} hc => ?_, fun hs ref other hother => ?_, fun _ _ => id⟩, fun _ _ => rfl,
    fun ref other hother => ?_⟩
  · have hbound : ref.index < s.closures.size := (Array.getElem?_eq_some_iff.1 hc).1
    show (s.closures.push closure)[ref.index]? = some other
    rw [Array.getElem?_push, if_neg (Nat.ne_of_lt hbound)]
    exact hc
  · rcases hnew ref other hother with hc | rfl
    · exact hs ref other hc
    · exact hplaced
  · rcases hnew ref other hother with hc | rfl
    · exact .inl hc
    · exact .inr fun f hf hmem => hkept f hmem hf

end Aside

end Store

/-! ## Stretches -/

/-- What a computation does from one stop to the next, if it starts in a certain store. Where it goes on, the store
is a later one than where it stopped. -/
inductive Suspension.Stretch {α : Type} : Suspension α → Store → Store → Store → Prop where
  | done (s t : Store) (r : Except Halt α) : Stretch (.done r t) s s t
  | await (s t : Store) (p : PromiseRef) (resume : Settled → Store → Suspension α) : Stretch (.await p t resume) s s t
  | spawn (s t : Store) (task : Task) (resume : PromiseRef → Store → Suspension α) :
      Stretch (.spawn task t resume) s s t
  | outcome {s t u a b : Store} {p : PromiseRef} {resume : Settled → Store → Suspension α} (outcome : Settled)
      (hmeanwhile : t.Onward u) (h : Stretch (resume outcome u) u a b) : Stretch (.await p t resume) s a b
  | promise {s t u a b : Store} {task : Task} {resume : PromiseRef → Store → Suspension α} (p : PromiseRef)
      (hmeanwhile : t.Onward u) (h : Stretch (resume p u) u a b) : Stretch (.spawn task t resume) s a b

/-- What a computation may come to, and the store that it leaves. -/
inductive Suspension.Ends {α : Type} : Suspension α → Except Halt α → Store → Prop where
  | done (r : Except Halt α) (t : Store) : Ends (.done r t) r t
  | outcome {t u v : Store} {p : PromiseRef} {resume : Settled → Store → Suspension α} {r : Except Halt α}
      (outcome : Settled) (hmeanwhile : t.Onward u) (h : Ends (resume outcome u) r v) : Ends (.await p t resume) r v
  | promise {t u v : Store} {task : Task} {resume : PromiseRef → Store → Suspension α} {r : Except Halt α}
      (p : PromiseRef) (hmeanwhile : t.Onward u) (h : Ends (resume p u) r v) : Ends (.spawn task t resume) r v

/-- All stretches of a computation are as a relation says. -/
def Suspension.Heeds {α : Type} (strides : Store → Store → Prop) (s : Store) (x : Suspension α) : Prop :=
  ∀ a b, x.Stretch s a b → strides a b

namespace Suspension

variable {α β : Type} {strides : Store → Store → Prop} {s t : Store}

theorem heeds_done {r : Except Halt α} : (done r t).Heeds strides s ↔ strides s t := by
  refine ⟨fun h => h s t (.done s t r), fun h a b hab => ?_⟩
  cases hab
  exact h

theorem heeds_await {p : PromiseRef} {resume : Settled → Store → Suspension α} :
    (await p t resume).Heeds strides s ↔
      strides s t ∧ ∀ outcome u, t.Onward u → (resume outcome u).Heeds strides u := by
  refine ⟨fun h => ⟨h s t (.await ..), fun outcome u hu a b hab => h a b (.outcome outcome hu hab)⟩, ?_⟩
  rintro ⟨hst, hresume⟩ a b (_ | _ | _ | ⟨outcome, hu, hab⟩)
  · exact hst
  · exact hresume outcome _ hu a b hab

theorem heeds_spawn {task : Task} {resume : PromiseRef → Store → Suspension α} :
    (spawn task t resume).Heeds strides s ↔ strides s t ∧ ∀ p u, t.Onward u → (resume p u).Heeds strides u := by
  refine ⟨fun h => ⟨h s t (.spawn ..), fun p u hu a b hab => h a b (.promise p hu hab)⟩, ?_⟩
  rintro ⟨hst, hresume⟩ a b (_ | _ | _ | _ | ⟨p, hu, hab⟩)
  · exact hst
  · exact hresume p _ hu a b hab

theorem Ends.of_eq {x : Suspension α} {r : Except Halt α} (h : x = .done r t) : x.Ends r t := h ▸ .done r t

/-- A computation that moves the store onward leaves a later store. -/
theorem Ends.onward {x : Suspension α} {r : Except Halt α} (h : x.Ends r t) (hx : x.Heeds Store.Onward s) :
    s.Onward t := by
  induction h generalizing s with
  | done r t => exact heeds_done.1 hx
  | outcome outcome hu _ ih =>
      obtain ⟨hst, hresume⟩ := heeds_await.1 hx
      exact hst.trans (hu.trans (ih (hresume outcome _ hu)))
  | promise p hu _ ih =>
      obtain ⟨hst, hresume⟩ := heeds_spawn.1 hx
      exact hst.trans (hu.trans (ih (hresume p _ hu)))

/-- A stretch of such a computation begins in a later store. -/
theorem Stretch.onward {x : Suspension α} {a b : Store} (h : x.Stretch s a b) (hx : x.Heeds Store.Onward s) :
    s.Onward a := by
  induction h with
  | done | await | spawn => exact .refl _
  | outcome outcome hu _ ih =>
      obtain ⟨hst, hresume⟩ := heeds_await.1 hx
      exact hst.trans (hu.trans (ih (hresume outcome _ hu)))
  | promise p hu _ ih =>
      obtain ⟨hst, hresume⟩ := heeds_spawn.1 hx
      exact hst.trans (hu.trans (ih (hresume p _ hu)))

/-- A computation behind another comes to something if both of them do. -/
theorem Ends.bind_inv {x : Suspension α} {f : α → Store → Suspension β} {b : β} (h : (x.bind f).Ends (.ok b) t) :
    ∃ a u, x.Ends (.ok a) u ∧ (f a u).Ends (.ok b) t := by
  induction x with
  | done r u =>
      cases r with
      | ok a => exact ⟨a, u, .done _ _, h⟩
      | error e => cases h
  | await p u resume ih =>
      cases h with
      | outcome outcome hu h =>
          obtain ⟨a, v, hx, hf⟩ := ih _ _ h
          exact ⟨a, v, .outcome outcome hu hx, hf⟩
  | spawn task u resume ih =>
      cases h with
      | promise p hu h =>
          obtain ⟨a, v, hx, hf⟩ := ih _ _ h
          exact ⟨a, v, .promise p hu hx, hf⟩

end Suspension

/-! ## Relations between stores -/

/-- A relation that a computation can heed if it leaves certain frames alone. -/
structure Store.Strides (kept : Set FrameRef) (strides : Store → Store → Prop) : Prop where
  aside : ∀ {s t}, Store.Aside kept s t → strides s t
  trans : ∀ {s t u}, strides s t → strides t u → strides s u
  onward : ∀ {s t}, strides s t → Store.Onward s t

/-- A store in which something can run in a scope and leave certain frames alone. -/
structure Store.Admits (kept : Set FrameRef) (scope : Scope) (s : Store) : Prop where
  rooted : s.Rooted
  placed : scope.Placed s
  exist : ∀ f ∈ kept, f.index < s.frames.size
  apart : ∀ f ∈ kept, f ∉ scope

namespace Store.Admits

variable {kept : Set FrameRef} {scope : Scope} {s t : Store}

theorem onward (h : s.Admits kept scope) (hst : s.Onward t) : t.Admits kept scope where
  rooted := hst.rooted h.rooted
  placed := hst.placed h.placed
  exist f hf := Nat.lt_of_lt_of_le (h.exist f hf) hst.size
  apart := h.apart

/-- What can run inside of frames can run outside of them. -/
theorem of_suffix {inner : Scope} (h : s.Admits kept inner) (hsuffix : scope <:+ inner) : s.Admits kept scope where
  rooted := h.rooted
  placed g hg := h.placed g (hsuffix.subset hg)
  exist := h.exist
  apart g hg hmem := h.apart g hg (hsuffix.subset hmem)

theorem outer {f : FrameRef} (h : s.Admits kept (f :: scope)) : s.Admits kept scope :=
  h.of_suffix (List.suffix_cons f scope)

/-- Behind a new frame. -/
theorem inner (h : s.Admits kept scope) (hst : s.Onward t) (hsize : t.frames.size = s.frames.size + 1) :
    t.Admits kept (⟨s.frames.size⟩ :: scope) := by
  have ht := h.onward hst
  refine ⟨ht.rooted, fun f hf => ?_, ht.exist, fun f hf hmem => ?_⟩
  · rcases List.mem_cons.1 hf with rfl | hf
    · exact hsize ▸ Nat.lt_succ_self _
    · exact ht.placed f hf
  · rcases List.mem_cons.1 hmem with rfl | hmem
    · exact Nat.lt_irrefl _ (h.exist _ hf)
    · exact h.apart f hf hmem

end Store.Admits

section

variable {kept : Set FrameRef} {strides : Store → Store → Prop} {α β : Type} {s t : Store}

namespace Suspension.Heeds

/-- What comes in front belongs to the first stretch. -/
theorem behind {x : Suspension α} (hstrides : Store.Strides kept strides) (hst : strides s t)
    (hx : x.Heeds strides t) : x.Heeds strides s := by
  cases x with
  | done r u => exact heeds_done.2 (hstrides.trans hst (heeds_done.1 hx))
  | await p u resume => exact heeds_await.2 ⟨hstrides.trans hst (heeds_await.1 hx).1, (heeds_await.1 hx).2⟩
  | spawn task u resume => exact heeds_spawn.2 ⟨hstrides.trans hst (heeds_spawn.1 hx).1, (heeds_spawn.1 hx).2⟩

/-- What comes next starts in a later store. -/
theorem bind {x : Suspension α} {f : α → Store → Suspension β} (hstrides : Store.Strides kept strides)
    (hx : x.Heeds strides s) (hf : ∀ a u, x.Ends (.ok a) u → s.Onward u → (f a u).Heeds strides u) :
    (x.bind f).Heeds strides s := by
  induction x generalizing s with
  | done r t =>
      have hst := heeds_done.1 hx
      cases r with
      | ok a => exact (hf a t (.done _ _) (hstrides.onward hst)).behind hstrides hst
      | error e => exact heeds_done.2 hst
  | await p t resume ih =>
      obtain ⟨hst, hresume⟩ := heeds_await.1 hx
      refine heeds_await.2 ⟨hst, fun outcome u hu => ih outcome u (hresume outcome u hu) fun a v hend hv => ?_⟩
      exact hf a v (.outcome outcome hu hend) ((hstrides.onward hst).trans (hu.trans hv))
  | spawn task t resume ih =>
      obtain ⟨hst, hresume⟩ := heeds_spawn.1 hx
      refine heeds_spawn.2 ⟨hst, fun p u hu => ih p u (hresume p u hu) fun a v hend hv => ?_⟩
      exact hf a v (.promise p hu hend) ((hstrides.onward hst).trans (hu.trans hv))

end Suspension.Heeds

/-- A computation that heeds a relation wherever it may run in a scope and leave certain frames alone. -/
def Comp.Heeds (kept : Set FrameRef) (strides : Store → Store → Prop) (scope : Scope) (x : Comp α) : Prop :=
  ∀ s : Store, s.Admits kept scope → (x s).Heeds strides s

/-- An action that keeps functions and frames does not see any frame. -/
theorem Comp.heeds_act (hstrides : Store.Strides kept strides) {scope : Scope} {x : Act α}
    (hx : ∀ s, (x.run.run s).2.closures = s.closures ∧ (x.run.run s).2.frames = s.frames) :
    (Comp.ofAct x).Heeds kept strides scope :=
  fun s _ => Suspension.heeds_done.2 (hstrides.aside (.of_frames (hx s).1 (hx s).2))

/-- An action that keeps to a scope without the frames. -/
theorem Comp.heeds_local (hstrides : Store.Strides kept strides) {scope : Scope} {x : Act α} (hx : x.Local scope) :
    (Comp.ofAct x).Heeds kept strides scope := by
  intro s hs
  have hvaries : Store.Varies scope s (x.run.run s).2 := hx s
  exact Suspension.heeds_done.2 (hstrides.aside (.of_varies hvaries hs.apart))

/-- A promise of any task. -/
theorem Comp.heeds_promise (hstrides : Store.Strides kept strides) (scope : Scope) (task : Task) :
    Comp.Heeds kept strides scope (do return Value.promise (← Comp.spawn task)) :=
  fun s _ => Suspension.heeds_spawn.2
    ⟨hstrides.aside (.refl s), fun _ u _ => Suspension.heeds_done.2 (hstrides.aside (.refl u))⟩

/-- Bodies heed a relation if their calls do. -/
theorem Comp.heeds_inherited (hstrides : Store.Strides kept strides) :
    Comp.Inherited fun {_} scope x => x.Heeds kept strides scope where
  pure a s _ := Suspension.heeds_done.2 (hstrides.aside (.refl s))
  bind hx hf s hs := (hx s hs).bind hstrides fun a u _ hu => hf a u (hs.onward hu)
  act hx := Comp.heeds_local hstrides hx.of_nil
  assign c name v := Comp.heeds_local hstrides (c.assign_local name v _)
  declare name v constant := Comp.heeds_local hstrides (Scope.declare_local _ name v constant)
  await p s _ := Suspension.heeds_await.2
    ⟨hstrides.aside (.refl s), fun _ u _ => Suspension.heeds_done.2 (hstrides.aside (.refl u))⟩
  promise task _ := Comp.heeds_promise hstrides _ task
  exhausted s _ := Suspension.heeds_done.2 (hstrides.aside (.refl s))
  arrow closure hscope s hs := by
    subst hscope
    exact Suspension.heeds_done.2 (hstrides.aside (.addClosure hs.placed hs.apart))
  child hk s hs := by
    have haside := Store.Aside.addFrame hs.exist
    have hsize : s.addFrame.2.frames.size = s.frames.size + 1 := Array.size_push ..
    exact (hk ⟨s.frames.size⟩ s.addFrame.2 (hs.inner haside.toOnward hsize)).behind hstrides (hstrides.aside haside)
  renewed names current hsuffix hk s hs := by
    rw [Comp.ofAct_bind (Scope.renewed_run names current _ s)]
    have haside := Store.Aside.renewed names current hs.exist
    have hsize := (Scope.copied_varies names current ⟨s.frames.size⟩ s.addFrame.2).size.trans (Array.size_push ..)
    have hinner := (hs.of_suffix hsuffix).inner haside.toOnward hsize
    exact (hk ⟨s.frames.size⟩ _ hinner).behind hstrides (hstrides.aside haside)

end

/-! ## Functions -/

/-- A context with a bound on the rounds of loops and one on the levels of calls. -/
def Setting.bounded (c : Setting) (rounds levels : Nat) : Context :=
  { c with call := c.callFunction rounds levels, rounds }

/-- A stretch of a function that sees one of certain frames. -/
inductive Setting.InSight (c : Setting) (rounds : Nat) (kept : Set FrameRef) : Store → Store → Prop where
  | run {s a b : Store} {ref : ClosureRef} {closure : Closure} {f : FrameRef} (args : List Value) (levels : Nat)
      (hs : s.Rooted) (hexist : ∀ f ∈ kept, f.index < s.frames.size) (hclosure : s.closure? ref = some closure)
      (hscope : f ∈ closure.scope) (hkept : f ∈ kept)
      (h : (closure.run (c.bounded rounds levels) args s).Stretch s a b) : InSight c rounds kept a b

/-- Certain frames are left alone, except by functions that see one of them. -/
def Setting.Spares (c : Setting) (rounds : Nat) (kept : Set FrameRef) : Store → Store → Prop :=
  Relation.ReflTransGen fun a b => Store.Aside kept a b ∨ c.InSight rounds kept a b

section

variable {kept : Set FrameRef} {strides : Store → Store → Prop} {c : Setting} {rounds : Nat}

theorem Act.closure_none {s : Store} {ref : ClosureRef} (h : s.closure? ref = none) :
    (Act.closure ref).run s = (.error (.raised (.type (.notFunction "anonymous"))), s) := by
  have hget : (MonadState.get : Act Store).run s = (.ok s, s) := rfl
  unfold Act.closure
  rw [Act.run_bind_ok hget, h]
  rfl

/-- A function is looked up and does something then. -/
theorem Comp.heeds_closure {α : Type} {s : Store} {ref : ClosureRef} {k : Closure → Comp α}
    (hstrides : Store.Strides kept strides)
    (hk : ∀ closure, s.closure? ref = some closure → (k closure s).Heeds strides s) :
    ((Comp.ofAct (Act.closure ref) >>= k) s).Heeds strides s := by
  cases hclosure : s.closure? ref with
  | some closure =>
      rw [Comp.ofAct_bind (Act.closure_ok hclosure)]
      exact hk closure hclosure
  | none =>
      have hfault : (Comp.ofAct (Act.closure ref) >>= k) s =
          .done (.error (.raised (.type (.notFunction "anonymous")))) s := by
        show (Comp.ofAct (Act.closure ref) s).bind k = _
        unfold Comp.ofAct
        rw [Act.closure_none hclosure]
        rfl
      rw [hfault]
      exact Suspension.heeds_done.2 (hstrides.aside (.refl s))

/-- A function that sees one of the frames does what such functions do, and any other one leaves them alone. -/
theorem Closure.run_heeds (hsight : ∀ a b, c.InSight rounds kept a b → strides a b) {levels : Nat}
    (h : (c.bounded rounds levels).Inherited fun {_} scope x => x.Heeds kept strides scope) {s : Store}
    (hs : s.Rooted) (hexist : ∀ f ∈ kept, f.index < s.frames.size) {ref : ClosureRef} {closure : Closure}
    (hclosure : s.closure? ref = some closure) (args : List Value) :
    (closure.run (c.bounded rounds levels) args s).Heeds strides s := by
  by_cases hsees : ∃ f ∈ closure.scope, f ∈ kept
  · obtain ⟨f, hscope, hkept⟩ := hsees
    exact fun a b hab => hsight a b (.run args levels hs hexist hclosure hscope hkept hab)
  · have hadmits : s.Admits kept closure.scope :=
      ⟨hs, hs ref closure hclosure, hexist, fun f hkept hscope => hsees ⟨f, hscope, hkept⟩⟩
    exact closure.run_inherits h args s hadmits

/-- The functions that bodies make heed a relation wherever the calls in them do. -/
def Setting.RunsHeed (c : Setting) (rounds : Nat) (kept : Set FrameRef) (strides : Store → Store → Prop) : Prop :=
  ∀ levels, (c.bounded rounds levels).Inherited (fun {_} scope x => x.Heeds kept strides scope) →
    ∀ {s : Store}, s.Rooted → (∀ f ∈ kept, f.index < s.frames.size) → ∀ {ref : ClosureRef} {closure : Closure},
      s.closure? ref = some closure → ∀ args, (closure.run (c.bounded rounds levels) args s).Heeds strides s

theorem Setting.runsHeed_of_sight (hsight : ∀ a b, c.InSight rounds kept a b → strides a b) :
    c.RunsHeed rounds kept strides := fun _ h _ hs hexist _ closure hclosure args =>
  closure.run_heeds hsight h hs hexist hclosure args

/-- The call of an external function changes the journal. -/
theorem Setting.callCapability_heeds (hstrides : Store.Strides kept strides) (name : String) (args : List Value)
    (scope : Scope) : (c.callCapability name args).Heeds kept strides scope := by
  have h := Comp.heeds_inherited hstrides
  unfold callCapability
  cases c.api.get? name with
  | none => exact h.fault _
  | some f =>
      refine h.bind (h.act (.mapM Value.toDocument_local args)) fun documents => ?_
      refine h.bind (h.act .get) fun t => h.bind (Comp.heeds_act hstrides fun _ => ⟨rfl, rfl⟩) fun _ => ?_
      cases f.isAsync with
      | true => exact Comp.heeds_promise hstrides scope _
      | false => exact Response.now_inherits h.toEvaluated _

theorem Setting.callFunction_heeds (hstrides : Store.Strides kept strides) (hruns : c.RunsHeed rounds kept strides)
    (levels : Nat) (f : Function) (args : List Value) (scope : Scope) :
    (c.callFunction rounds levels f args).Heeds kept strides scope := by
  have h := Comp.heeds_inherited hstrides
  induction levels generalizing f args scope with
  | zero => exact h.exhausted
  | succ levels ih =>
      cases f with
      | closure ref =>
          intro s hs
          refine Comp.heeds_closure hstrides fun closure hclosure => ?_
          split
          · exact Comp.heeds_promise hstrides scope _ s hs
          · exact hruns levels { h with call := fun scope f args => ih f args scope } hs.rooted hs.exist hclosure args
      | builtin b => exact b.call_inherits h.toEvaluated args
      | method m => exact m.call_inherits h.toEvaluated (fun f args => ih f args scope) args
      | capability name => exact callCapability_heeds hstrides name args scope

theorem Setting.bounded_heeds (hstrides : Store.Strides kept strides) (hruns : c.RunsHeed rounds kept strides)
    (levels : Nat) : (c.bounded rounds levels).Inherited fun {_} scope x => x.Heeds kept strides scope :=
  { Comp.heeds_inherited hstrides with
    call := fun scope f args => callFunction_heeds hstrides hruns levels f args scope }

/-- What runs on its own. -/
theorem Setting.runJob_heeds (hstrides : Store.Strides kept strides) (hruns : c.RunsHeed rounds kept strides)
    (levels : Nat) (job : Job) (scope : Scope) :
    ((c.bounded rounds levels).runJob job).Heeds kept strides scope := by
  have h := bounded_heeds hstrides hruns levels
  cases job with
  | closure ref args =>
      intro s hs
      refine Comp.heeds_closure hstrides fun closure hclosure => ?_
      have hrun := hruns levels h hs.rooted hs.exist hclosure args
      exact hrun.bind hstrides fun v u _ hu => h.settle v u (hs.onward hu)
  | chain source onFulfilled onRejected => exact Context.runJob_chain_inherits h.evaluated source onFulfilled onRejected

end

/-! ## Everything moves the store onward -/

theorem Store.onward_strides : Store.Strides ∅ Store.Onward := ⟨fun h => h.toOnward, .trans, id⟩

variable {rounds : Nat} {kept : Set FrameRef} {a b : Store}

namespace Setting

variable (c : Setting)

/-- Nothing sees none of the frames. -/
theorem not_inSight_empty : ¬ c.InSight rounds ∅ a b := by
  rintro ⟨args, levels, hs, hexist, hclosure, hscope, hkept, h⟩
  exact hkept

theorem bounded_onward (rounds levels : Nat) :
    (c.bounded rounds levels).Inherited fun {_} scope x => x.Heeds ∅ Store.Onward scope :=
  bounded_heeds Store.onward_strides (runsHeed_of_sight fun _ _ h => (c.not_inSight_empty h).elim) levels

theorem run_onward {levels : Nat} {s : Store} (hs : s.Rooted) {ref : ClosureRef} {closure : Closure}
    (hclosure : s.closure? ref = some closure) (args : List Value) :
    (closure.run (c.bounded rounds levels) args s).Heeds Store.Onward s :=
  closure.run_heeds (fun _ _ h => (c.not_inSight_empty h).elim) (c.bounded_onward rounds levels) hs nofun hclosure args

variable {c}

theorem InSight.onward (h : c.InSight rounds kept a b) : a.Onward b := by
  cases h with
  | run args levels hs hexist hclosure hscope hkept h => exact c.run_onward hs hclosure args a b h

/-- The function is there when the stretch begins. -/
theorem InSight.sees (h : c.InSight rounds kept a b) :
    ∃ ref closure f, a.closure? ref = some closure ∧ f ∈ closure.scope ∧ f ∈ kept := by
  cases h with
  | @run s a b ref closure f args levels hs hexist hclosure hscope hkept h =>
      have honward : s.Onward a := h.onward (c.run_onward hs hclosure args)
      exact ⟨ref, closure, f, honward.closure hclosure, hscope, hkept⟩

/-! ## Who leaves a frame alone -/

theorem spares_strides (c : Setting) (rounds : Nat) (kept : Set FrameRef) :
    Store.Strides kept (c.Spares rounds kept) where
  aside h := .single (.inl h)
  trans := .trans
  onward h := by
    induction h with
    | refl => exact .refl _
    | tail _ hstep ih =>
        rcases hstep with haside | hsight
        · exact ih.trans haside.toOnward
        · exact ih.trans hsight.onward

theorem InSight.spares (h : c.InSight rounds kept a b) : c.Spares rounds kept a b := .single (.inr h)

/-- As long as no function sees them, the frames stay as they are. -/
theorem Spares.frame_of_unseen (h : c.Spares rounds kept a b)
    (hunseen : ∀ ref closure, a.closure? ref = some closure → ∀ f ∈ closure.scope, f ∉ kept) :
    (∀ f ∈ kept, b.frame f = a.frame f) ∧
      ∀ ref closure, b.closure? ref = some closure → ∀ f ∈ closure.scope, f ∉ kept := by
  induction h with
  | refl => exact ⟨fun _ _ => rfl, hunseen⟩
  | tail _ hstep ih =>
      obtain ⟨hframe, hnone⟩ := ih
      rcases hstep with haside | hsight
      · refine ⟨fun f hf => (haside.frame f hf).trans (hframe f hf), fun ref closure hclosure => ?_⟩
        rcases haside.unseen ref closure hclosure with hold | hnew
        · exact hnone ref closure hold
        · exact hnew
      · obtain ⟨ref, closure, f, hclosure, hscope, hkept⟩ := hsight.sees
        exact absurd hkept (hnone ref closure hclosure f hscope)

theorem bounded_spares (c : Setting) (rounds : Nat) (kept : Set FrameRef) (levels : Nat) :
    (c.bounded rounds levels).Inherited fun {_} scope x => x.Heeds kept (c.Spares rounds kept) scope :=
  bounded_heeds (c.spares_strides rounds kept) (runsHeed_of_sight fun _ _ h => h.spares) levels

/-- Calls need no scope. -/
theorem callFunction_spares (c : Setting) (rounds levels : Nat) (g : Function) (args : List Value) {s : Store}
    (hs : s.Rooted) (hexist : ∀ f ∈ kept, f.index < s.frames.size) :
    (c.callFunction rounds levels g args s).Heeds (c.Spares rounds kept) s :=
  (c.bounded_spares rounds kept levels).call [] g args s ⟨hs, nofun, hexist, nofun⟩

theorem runJob_spares (c : Setting) (rounds levels : Nat) (job : Job) {s : Store} (hs : s.Rooted)
    (hexist : ∀ f ∈ kept, f.index < s.frames.size) :
    ((c.bounded rounds levels).runJob job s).Heeds (c.Spares rounds kept) s :=
  runJob_heeds (c.spares_strides rounds kept) (runsHeed_of_sight fun _ _ h => h.spares) levels job [] s
    ⟨hs, nofun, hexist, nofun⟩

end Setting

end FieldScript
