import FieldScript.Proofs.Eval.Strides

/-!
# The names that a pattern declares

A pattern that is bound in a declaration declares its names in the innermost frame, one after another and in the order
in which they are written. In between, defaults and computed keys are evaluated. These may assign to variables, call
functions and wait, but they declare nothing: only statements do, and functions for their parameters, and a function has
a frame of its own for both.

## Strategy

* `Store.declared`: what a frame declares. `Store.Steady`: at a later time, certain frames declare the same.
* `Setting.bounded_steady`: whatever an expression does is steady for all frames that exist when it is evaluated. Bodies
  inherit this from what they are put together from, apart from the innermost frame (`Comp.steady_inherited`), and
  functions start with a new one.
* `Suspension.Tells`: a computation passes names one after another, each stretch some of them. What passing a name means
  is left open (`Store.Tally`), so that the same walk through patterns (`Eval.bindPattern_tells`) tells what is
  declared, what stays declared and what is left alone.
* `Suspension.Runs`: the stretches of a run that comes to its end, from the first to the last.
* `Eval.bindPattern_declares`: the names that are declared on the way are those of the pattern.
-/

namespace FieldScript

/-! ## What a frame declares -/

namespace Store

/-- The names of the variables of a frame, and which of them are constant. -/
def declared (s : Store) (f : FrameRef) : List (String × Bool) := (s.frame f).map fun (name, b) => (name, b.constant)

/-- A later store in which certain frames declare what they declared. -/
structure Steady (kept : Set FrameRef) (s t : Store) : Prop extends Onward s t where
  declared : ∀ f ∈ kept, t.declared f = s.declared f

variable {s t : Store} {f : FrameRef} {kept : Set FrameRef}

theorem declared_of_frame (h : t.frame f = s.frame f) : t.declared f = s.declared f := by rw [declared, declared, h]

theorem declared_modifyFrame (hf : f.index < s.frames.size) (name : String) (b : Binding) :
    (s.modifyFrame f (Entries.set name b)).declared f = Entries.set name b.constant (s.declared f) := by
  rw [declared, frame_modifyFrame_self _ hf, Entries.map_set]
  rfl

/-- A variable that has its constancy already stays where it is. -/
theorem declared_reset {name : String} {b b' : Binding} (h : (s.frame f).lookup name = some b)
    (hconstant : b'.constant = b.constant) (g : FrameRef) :
    (s.modifyFrame f (Entries.set name b')).declared g = s.declared g := by
  by_cases hg : g = f
  · subst hg
    have hbound : g.index < s.frames.size := by
      by_contra hout
      have hempty : s.frame g = [] := by simp [frame, Array.getElem?_eq_none (Nat.le_of_not_lt hout)]
      rw [hempty] at h
      cases h
    have hset : Entries.set name b (s.frame g) = s.frame g := Entries.set_of_lookup h
    rw [declared_modifyFrame hbound, hconstant, declared, ← Entries.map_set, hset]
  · exact declared_of_frame (frame_modifyFrame_ne _ hg)

theorem steady_strides (kept : Set FrameRef) : Strides kept (Steady kept) where
  aside h := ⟨h.toOnward, fun f hf => declared_of_frame (h.frame f hf)⟩
  trans h h' := ⟨h.toOnward.trans h'.toOnward, fun f hf => (h'.declared f hf).trans (h.declared f hf)⟩
  onward h := h.toOnward

end Store

/-- An assignment declares nothing. -/
theorem Scope.assign_declared (scope : Scope) (name : String) (v : Value) (s : Store) (g : FrameRef) :
    ((scope.assign name v).run.run s).2.declared g = s.declared g := by
  induction scope with
  | nil => rfl
  | cons f rest ih =>
      have hget : (get : Act Store).run s = (.ok s, s) := rfl
      unfold assign
      show ((get >>= _ : Act Bool).run s).2.declared g = _
      rw [Act.run_bind_ok hget]
      cases hlookup : (s.frame f).lookup name with
      | none => exact ih
      | some b =>
          cases hconstant : b.constant with
          | true =>
              simp only [hconstant, if_true]
              rfl
          | false =>
              simp only [hconstant, Bool.false_eq_true, if_false]
              exact Store.declared_reset hlookup hconstant.symm g

theorem Setting.assign_declared (c : Setting) (name : String) (v : Value) (scope : Scope) (s : Store) (g : FrameRef) :
    ((c.assign name v scope).run.run s).2.declared g = s.declared g := by
  have hscope := scope.assign_declared name v s g
  cases hrun : (scope.assign name v).run.run s with
  | mk result t =>
      rw [hrun] at hscope
      cases result with
      | error e =>
          have hhalt : (c.assign name v scope).run.run s = (.error e, t) := Act.run_bind_error hrun
          rw [hhalt]
          exact hscope
      | ok assigned =>
          have hrest := Act.run_bind_ok (f := fun assigned => if assigned = true then pure () else
            if c.capabilities.contains name then Act.typeFault (.capabilityAssigned name)
            else if c.args.contains name then modify fun s => s.modifyObject c.data (Entries.set name v)
            else Act.raise (.unbound name)) hrun
          have hassign : (c.assign name v scope).run.run s = _ := hrest
          rw [hassign]
          split
          · exact hscope
          · split
            · exact hscope
            · split <;> exact hscope

/-! ## Expressions declare nothing -/

/-- A computation in a scope that declares something in certain frames at most, and in new ones. -/
def Comp.Steady {α : Type} (kept : Set FrameRef) (front : List FrameRef) (scope : Scope) (x : Comp α) : Prop :=
  ∀ s : Store, s.Admits ∅ scope → (∀ f ∈ kept, f.index < s.frames.size) → (∀ f ∈ front, f ∉ kept) →
    (x s).Heeds (Store.Steady kept) s

namespace Comp

variable {α : Type} {kept : Set FrameRef} {front : List FrameRef} {scope : Scope}

/-- What needs no scope. -/
theorem Steady.of_heeds {x : Comp α} (h : x.Heeds kept (Store.Steady kept) []) : x.Steady kept front scope :=
  fun s hs hexist _ => h s ⟨hs.rooted, nofun, hexist, nofun⟩

/-- Whatever an expression does, it declares nothing. -/
theorem steady_evaluated (kept : Set FrameRef) (front : Scope → List FrameRef) :
    Comp.Evaluated fun {_} scope x => x.Steady kept (front scope) scope :=
  have h := Comp.heeds_inherited (Store.steady_strides kept)
  { pure := fun a => .of_heeds (h.pure a)
    bind := fun hx hf s hs hexist hfront => (hx s hs hexist hfront).bind (Store.steady_strides kept) fun a u _ hu =>
      hf a u (hs.onward hu) (fun f hf => Nat.lt_of_lt_of_le (hexist f hf) hu.size) hfront
    act := fun hx => .of_heeds (h.act hx)
    assign := fun {scope} c name v s _ _ _ => by
      have hvaries : Store.Varies scope s ((c.assign name v scope).run.run s).2 := c.assign_local name v scope s
      have haside : Store.Aside ∅ s ((c.assign name v scope).run.run s).2 := .of_varies hvaries nofun
      exact Suspension.heeds_done.2 ⟨haside.toOnward, fun f _ => c.assign_declared name v scope s f⟩
    await := fun p => .of_heeds (h.await p)
    promise := fun task htask => .of_heeds (h.promise task htask)
    exhausted := .of_heeds h.exhausted
    arrow := fun closure hscope s hs _ _ => by
      subst hscope
      have haside : Store.Aside ∅ s (s.addClosure closure).2 := .addClosure hs.placed hs.apart
      exact Suspension.heeds_done.2 ⟨haside.toOnward, fun _ _ => rfl⟩ }

/-- What is declared behind a new frame is declared in this frame. -/
theorem Steady.behind_frame {x : Comp α} {s t : Store}
    (hx : x.Steady kept [⟨s.frames.size⟩] (⟨s.frames.size⟩ :: scope)) (hs : s.Admits ∅ scope)
    (hexist : ∀ f ∈ kept, f.index < s.frames.size) (haside : Store.Aside kept s t)
    (hsize : t.frames.size = s.frames.size + 1) : (x t).Heeds (Store.Steady kept) s := by
  have hnew : (⟨s.frames.size⟩ : FrameRef) ∉ kept := fun hmem => Nat.lt_irrefl _ (hexist _ hmem)
  have hrest := hx t (hs.inner haside.toOnward hsize) (fun f hf => Nat.lt_of_lt_of_le (hexist f hf) haside.size)
    fun f hf => List.mem_singleton.1 hf ▸ hnew
  exact hrest.behind (Store.steady_strides kept) ((Store.steady_strides kept).aside haside)

theorem steady_child {k : Scope → Comp α} (hk : ∀ f, (k (f :: scope)).Steady kept [f] (f :: scope)) :
    (Comp.ofAct scope.child >>= k).Steady kept front scope :=
  fun s hs hexist _ => (hk ⟨s.frames.size⟩).behind_frame hs hexist (.addFrame hexist) (Array.size_push ..)

/-- Bodies declare something in the innermost frame at most. -/
theorem steady_inherited (kept : Set FrameRef) :
    Comp.Inherited fun {_} scope x => x.Steady kept (scope.take 1) scope where
  toEvaluated := steady_evaluated kept fun scope => scope.take 1
  declare {scope} name v constant s hs _ hfront := by
    cases scope with
    | nil => exact Suspension.heeds_done.2 ((Store.steady_strides kept).aside (.refl s))
    | cons f rest =>
        have hvaries : Store.Varies [f] s (s.modifyFrame f (Entries.set name ⟨v, constant⟩)) :=
          .set List.mem_cons_self s name _
        have haside := Store.Aside.of_varies hvaries fun g hg hmem => hfront g hmem hg
        exact Suspension.heeds_done.2 ((Store.steady_strides kept).aside haside)
  child hk := steady_child hk
  renewed {_ scope _ _} names current hsuffix hk s hs hexist _ := by
    rw [Comp.ofAct_bind (Scope.renewed_run names current scope s)]
    have hsize := (Scope.copied_varies names current ⟨s.frames.size⟩ s.addFrame.2).size.trans (Array.size_push ..)
    exact (hk ⟨s.frames.size⟩).behind_frame (hs.of_suffix hsuffix) hexist (.renewed names current hexist) hsize

end Comp

namespace Setting

variable (c : Setting) (rounds : Nat) (kept : Set FrameRef)

/-- A function declares something in its own frames at most. -/
theorem runsHeed_steady : c.RunsHeed rounds kept (Store.Steady kept) := by
  intro levels h s hs hexist ref closure hclosure args
  have hinner : (c.bounded rounds levels).Inherited fun {_} scope x => x.Steady kept (scope.take 1) scope :=
    { Comp.steady_inherited kept with call := fun _ f args => .of_heeds (h.call [] f args) }
  have hrun : (closure.run (c.bounded rounds levels) args).Steady kept [] closure.scope := by
    rw [closure.run_eq]
    exact Comp.steady_child fun f => closure.enter_inherits hinner args (f :: closure.scope)
  exact hrun s ⟨hs, hs ref closure hclosure, nofun, nofun⟩ hexist nofun

/-- So expressions declare nothing. -/
theorem bounded_steady (levels : Nat) :
    (c.bounded rounds levels).Evaluated fun {_} scope x => x.Steady kept [] scope :=
  have h := bounded_heeds (Store.steady_strides kept) (c.runsHeed_steady rounds kept) levels
  { Comp.steady_evaluated kept fun _ => [] with call := fun _ f args => .of_heeds (h.call [] f args) }

/-- Nor does what runs on its own. -/
theorem runJob_steady (levels : Nat) (job : Job) {s : Store} (hs : s.Rooted)
    (hexist : ∀ f ∈ kept, f.index < s.frames.size) :
    ((c.bounded rounds levels).runJob job s).Heeds (Store.Steady kept) s :=
  runJob_heeds (Store.steady_strides kept) (c.runsHeed_steady rounds kept) levels job [] s
    ⟨hs, nofun, hexist, nofun⟩

end Setting

/-! ## Names on the way -/

/-- A computation passes names one after another, each stretch some of them, unless it halts. What a stretch does that
passes certain names is told by a relation. -/
def Suspension.Tells {α : Type} (step : List String → Store → Store → Prop) : Suspension α → List String → Store → Prop
  | .done (.ok _) t, names, s => step names s t
  | .done (.error _) _, _, _ => True
  | .await _ t resume, names, s => ∃ first rest, names = first ++ rest ∧ step first s t ∧
      ∀ outcome u, t.Onward u → (resume outcome u).Tells step rest u
  | .spawn _ t resume, names, s => ∃ first rest, names = first ++ rest ∧ step first s t ∧
      ∀ p u, t.Onward u → (resume p u).Tells step rest u

/-- The same wherever the computation starts in a store that is later than a certain one. -/
def Comp.Tells {α : Type} (base : Store) (step : List String → Store → Store → Prop) (names : List String)
    (x : Comp α) : Prop := ∀ s, base.Onward s → (x s).Tells step names s

/-- What a stretch can do that passes names, if these are declared in a certain frame. -/
structure Store.Tally (f : FrameRef) (constant : Bool) (base : Store) (step : List String → Store → Store → Prop) :
    Prop where
  /-- No name is passed where no variable changes. -/
  quiet : ∀ {s t}, Store.Varies [] s t → step [] s t
  /-- A name is passed where it is declared. -/
  declare : ∀ {s} name v, base.Onward s → step [name] s (s.modifyFrame f (Entries.set name ⟨v, constant⟩))
  trans : ∀ {names more s t u}, step names s t → step more t u → step (names ++ more) s u
  onward : ∀ {names s t}, step names s t → s.Onward t

section

variable {α β : Type} {f : FrameRef} {constant : Bool} {base s t : Store} {names more : List String}
  {step : List String → Store → Store → Prop}

namespace Suspension

/-- What comes in front belongs to the first stretch. -/
theorem Tells.behind {x : Suspension α} (htally : Store.Tally f constant base step) (hst : step names s t)
    (hx : x.Tells step more t) : x.Tells step (names ++ more) s := by
  cases x with
  | done r u =>
      cases r with
      | ok a => exact htally.trans hst hx
      | error e => trivial
  | await p u resume | spawn task u resume =>
      obtain ⟨first, rest, rfl, htu, hresume⟩ := hx
      exact ⟨names ++ first, rest, (List.append_assoc ..).symm, htally.trans hst htu, hresume⟩

theorem Tells.bind {x : Suspension α} {k : α → Store → Suspension β} (htally : Store.Tally f constant base step)
    (hx : x.Tells step names s) (hk : ∀ a u, s.Onward u → (k a u).Tells step more u) :
    (x.bind k).Tells step (names ++ more) s := by
  induction x generalizing names s with
  | done r t =>
      cases r with
      | ok a => exact (hk a t (htally.onward hx)).behind htally hx
      | error e => trivial
  | await p t resume ih | spawn task t resume ih =>
      obtain ⟨first, rest, rfl, hst, hresume⟩ := hx
      refine ⟨first, rest ++ more, List.append_assoc .., hst, fun a u hu => ih a u (hresume a u hu) fun b v hv => ?_⟩
      exact hk b v ((htally.onward hst).trans (hu.trans hv))

/-- A computation none of whose stretches passes a name. -/
theorem Heeds.tells {x : Suspension α} (hx : x.Heeds (step []) s) : x.Tells step [] s := by
  induction x generalizing s with
  | done r t =>
      cases r with
      | ok a => exact heeds_done.1 hx
      | error e => trivial
  | await p t resume ih =>
      obtain ⟨hst, hresume⟩ := heeds_await.1 hx
      exact ⟨[], [], rfl, hst, fun outcome u hu => ih outcome u (hresume outcome u hu)⟩
  | spawn task t resume ih =>
      obtain ⟨hst, hresume⟩ := heeds_spawn.1 hx
      exact ⟨[], [], rfl, hst, fun p u hu => ih p u (hresume p u hu)⟩

/-- If the store passes no name while the computation waits, the computation passes its names as a whole. -/
theorem Tells.ends {x : Suspension α} (htally : Store.Tally f constant base step)
    (hmeanwhile : ∀ {s t}, Store.Onward s t → step [] s t) (hx : x.Tells step names s) {a : α} (h : x.Ends (.ok a) t) :
    step names s t := by
  generalize hr : Except.ok a = r at h
  induction h generalizing names s with
  | done r t =>
      subst hr
      exact hx
  | outcome _ hu _ ih | promise _ hu _ ih =>
      obtain ⟨first, rest, rfl, hst, hresume⟩ := hx
      exact htally.trans hst (htally.trans (hmeanwhile hu) (ih (hresume _ _ hu) hr))

end Suspension

namespace Comp.Tells

theorem act (htally : Store.Tally f constant base step) {x : Act α} (hx : x.Local []) :
    (Comp.ofAct x).Tells base step [] :=
  fun s _ => (Suspension.heeds_done.2 (htally.quiet (hx s))).tells

theorem change (htally : Store.Tally f constant base step) {x : Change α} (hx : x.Local []) :
    (liftM x : Comp α).Tells base step [] := act htally (.lift hx)

theorem pure (htally : Store.Tally f constant base step) (a : α) : (Pure.pure a : Comp α).Tells base step [] :=
  act htally (.pure a)

theorem fault (fault : TypeFault) : (Comp.ofAct (Act.typeFault fault) : Comp α).Tells base step names :=
  fun _ _ => trivial

theorem bind (htally : Store.Tally f constant base step) {x : Comp α} {k : α → Comp β} (hx : x.Tells base step names)
    (hk : ∀ a, (k a).Tells base step more) : (x >>= k).Tells base step (names ++ more) :=
  fun s hs => (hx s hs).bind htally fun a u hu => hk a u (hs.trans hu)

theorem orUndefined (htally : Store.Tally f constant base step) {x : Comp (Option Value)}
    (hx : x.Tells base step []) : (orUndefined x).Tells base step [] := hx.bind htally fun _ => pure htally _

end Comp.Tells

end

/-! ## Patterns -/

/-- The expression that a key evaluates. -/
def Key.embedded : Key → List Expr
  | .computed e => [e]
  | _ => []

namespace Pattern

mutual

/-- The expressions that are evaluated where a pattern is bound in a declaration: defaults and computed keys. -/
def embedded : Pattern → List Expr
  | .assign target default => default :: target.embedded
  | .array elements _ => embeddedOf elements
  | .object props _ => embeddedOfProps props
  | .rest target => target.embedded
  | .ident _ => []
  | .member _ => []
  | .hole => []

/-- Those of several patterns. -/
def embeddedOf : List Pattern → List Expr
  | [] => []
  | p :: more => p.embedded ++ embeddedOf more

/-- Those of the entries of an object pattern. -/
def embeddedOfProps : List PatternProp → List Expr
  | [] => []
  | .init key target _ :: more => key.embedded ++ (target.embedded ++ embeddedOfProps more)
  | .rest target :: more => target.embedded ++ embeddedOfProps more

end

end Pattern

namespace Eval

variable {c : Context} {f : FrameRef} {scope : Scope} {constant : Bool} {base : Store}
  {step : List String → Store → Store → Prop}

theorem keyName_tells (htally : Store.Tally f constant base step) (key : Key)
    (h : ∀ e ∈ key.embedded, (link c e (f :: scope)).Tells base step []) :
    (keyName c key (f :: scope)).Tells base step [] := by
  cases key with
  | name id => rw [keyName]; exact .pure htally _
  | literal lit => rw [keyName]; exact .pure htally _
  | computed e =>
      rw [keyName]
      exact (Comp.Tells.orUndefined htally (h e List.mem_cons_self)).bind htally fun v => .act htally v.toText_local

mutual

/-- Binding a pattern passes its names, if the expressions in it pass none. -/
theorem bindPattern_tells (htally : Store.Tally f constant base step) (p : Pattern) (v : Value)
    (h : ∀ e ∈ p.embedded, (link c e (f :: scope)).Tells base step []) :
    (bindPattern c p v (.declare constant) (f :: scope)).Tells base step p.boundNames := by
  match p with
  | .ident id =>
      rw [bindPattern]
      exact fun s hs => htally.declare id.name v hs
  | .assign target default =>
      rw [Pattern.embedded, List.forall_mem_cons] at h
      rw [Pattern.boundNames]
      by_cases hv : v = .undefined
      · rw [hv, bindPattern_undefined]
        exact (Comp.Tells.orUndefined htally h.1).bind htally fun v => bindPattern_tells htally target v h.2
      · rw [bindPattern_defined c _ target default _ hv]
        exact bindPattern_tells htally target v h.2
  | .array elements span =>
      rw [Pattern.embedded] at h
      rw [bindPattern, Pattern.boundNames]
      exact (Comp.Tells.act htally v.elements_local).bind htally fun items => bindElements_tells htally elements items h
  | .object props span =>
      rw [Pattern.embedded] at h
      rw [bindPattern, Pattern.boundNames]
      split
      · exact (Comp.Tells.act htally v.toText_local).bind htally fun _ => .fault _
      · exact bindEntries_tells htally props v [] h
  | .rest target =>
      rw [Pattern.embedded] at h
      rw [bindPattern, Pattern.boundNames]
      exact bindPattern_tells htally target v h
  | .member e => rw [bindPattern]; exact .fault _
  | .hole => rw [bindPattern, Pattern.boundNames]; exact .pure htally _
termination_by structural p

/-- The target of a rest pattern. -/
theorem restTarget_tells (htally : Store.Tally f constant base step) (p target : Pattern) (hp : p = .rest target)
    (v : Value) (h : ∀ e ∈ target.embedded, (link c e (f :: scope)).Tells base step []) :
    (bindPattern c target v (.declare constant) (f :: scope)).Tells base step target.boundNames := by
  cases p with
  | rest target' =>
      have htarget := bindPattern_tells htally target' v
      cases hp
      exact htarget h
  | _ => cases hp
termination_by structural p

theorem bindElements_tells (htally : Store.Tally f constant base step) (ps : List Pattern) (items : List Value)
    (h : ∀ e ∈ Pattern.embeddedOf ps, (link c e (f :: scope)).Tells base step []) :
    (bindElements c ps items (.declare constant) (f :: scope)).Tells base step (Pattern.boundNamesOf ps) := by
  match ps with
  | [] => rw [bindElements, Pattern.boundNamesOf]; exact .pure htally _
  | p :: ps =>
      have htarget := restTarget_tells htally p
      rw [Pattern.embeddedOf, List.forall_mem_append] at h
      rw [Pattern.boundNamesOf]
      by_cases hrest : ∃ target, p = .rest target
      · obtain ⟨target, rfl⟩ := hrest
        rw [bindElements, Pattern.boundNames]
        refine (Comp.Tells.change htally (Change.newArray_local _)).bind htally fun rest => ?_
        exact (htarget target rfl rest h.1).bind htally fun _ => bindElements_tells htally ps _ h.2
      · rw [bindElements_cons c _ fun target hp => hrest ⟨target, hp⟩]
        exact (bindPattern_tells htally p _ h.1).bind htally fun _ => bindElements_tells htally ps _ h.2
termination_by structural ps

theorem bindEntries_tells (htally : Store.Tally f constant base step) (props : List PatternProp) (v : Value)
    (used : List String) (h : ∀ e ∈ Pattern.embeddedOfProps props, (link c e (f :: scope)).Tells base step []) :
    (bindEntries c props v used (.declare constant) (f :: scope)).Tells base step
      (Pattern.boundNamesOfProps props) := by
  match props with
  | [] => rw [bindEntries, Pattern.boundNamesOfProps]; exact .pure htally _
  | .init key target span :: props =>
      rw [Pattern.embeddedOfProps, List.forall_mem_append, List.forall_mem_append] at h
      rw [bindEntries, Pattern.boundNamesOfProps]
      refine (keyName_tells htally key h.1).bind htally fun name => ?_
      refine (Comp.Tells.act htally (v.get_local name)).bind htally fun item => ?_
      exact (bindPattern_tells htally target item h.2.1).bind htally fun _ =>
        bindEntries_tells htally props v (name :: used) h.2.2
  | .rest target :: props =>
      rw [Pattern.embeddedOfProps, List.forall_mem_append] at h
      rw [bindEntries, Pattern.boundNamesOfProps]
      refine (Comp.Tells.act htally v.ownEntries_local).bind htally fun es => ?_
      refine (Comp.Tells.change htally (Change.newObject_local _)).bind htally fun rest => ?_
      exact (bindPattern_tells htally target rest h.1).bind htally fun _ => bindEntries_tells htally props v used h.2
termination_by structural props

end

end Eval

/-! ## Runs -/

/-- A run that comes to its end: its stretches, each with the store in which it begins and the one in which it ends. In
between, the store moves on. -/
inductive Suspension.Runs {α : Type} : Suspension α → Store → List (Store × Store) → Except Halt α → Store → Prop where
  | done (s t : Store) (r : Except Halt α) : Runs (.done r t) s [(s, t)] r t
  | outcome {s t u v : Store} {p : PromiseRef} {resume : Settled → Store → Suspension α} {r : Except Halt α}
      {run : List (Store × Store)} (outcome : Settled) (hmeanwhile : t.Onward u)
      (h : Runs (resume outcome u) u run r v) : Runs (.await p t resume) s ((s, t) :: run) r v
  | promise {s t u v : Store} {task : Task} {resume : PromiseRef → Store → Suspension α} {r : Except Halt α}
      {run : List (Store × Store)} (p : PromiseRef) (hmeanwhile : t.Onward u)
      (h : Runs (resume p u) u run r v) : Runs (.spawn task t resume) s ((s, t) :: run) r v

namespace Suspension

variable {α : Type} {x : Suspension α} {s t : Store} {run : List (Store × Store)} {a : α} {names : List String}
  {step : List String → Store → Store → Prop}

/-- Each stretch of a run passes some of the names, and together they pass all of them. -/
theorem Tells.parts (h : x.Tells step names s) (hrun : x.Runs s run (.ok a) t) :
    ∃ parts, parts.flatten = names ∧ List.Forall₂ (fun part stretch => step part stretch.1 stretch.2) parts run := by
  generalize hr : Except.ok a = r at hrun
  induction hrun generalizing names with
  | done s t r =>
      subst hr
      exact ⟨[names], List.append_nil names, .cons h .nil⟩
  | outcome outcome hu _ ih | promise p hu _ ih =>
      obtain ⟨first, rest, rfl, hst, hresume⟩ := h
      obtain ⟨parts, rfl, hparts⟩ := ih (hresume _ _ hu) hr
      exact ⟨first :: parts, rfl, .cons hst hparts⟩

end Suspension

namespace Store

/-- A later store in which a frame declares certain names that have been declared in it one after another. The other
frames of an earlier store declare what they declared. -/
structure Declares (f : FrameRef) (constant : Bool) (base : Store) (names : List String) (s t : Store) : Prop
    extends Onward s t where
  declared : t.declared f = Entries.setAll (s.declared f) (names.map fun name => (name, constant))
  others : ∀ g, g ≠ f → g.index < base.frames.size → t.declared g = s.declared g

variable {f : FrameRef} {constant : Bool} {base s t : Store}

theorem onward_declare (s : Store) (f : FrameRef) (name : String) (b : Binding) :
    s.Onward (s.modifyFrame f (Entries.set name b)) := by
  have hvaries : Varies [f] s (s.modifyFrame f (Entries.set name b)) := .set List.mem_cons_self s name b
  have haside : Aside ∅ s (s.modifyFrame f (Entries.set name b)) := .of_varies hvaries nofun
  exact haside.toOnward

theorem declares_tally (hf : f.index < base.frames.size) : Tally f constant base (Declares f constant base) where
  quiet hvaries := by
    have haside : Aside Set.univ _ _ := .of_varies hvaries fun _ _ => List.not_mem_nil
    exact ⟨haside.toOnward, declared_of_frame (haside.frame f trivial),
      fun g _ _ => declared_of_frame (haside.frame g trivial)⟩
  declare name v hs := by
    have hplaced := Nat.lt_of_lt_of_le hf hs.size
    exact ⟨onward_declare _ f name _, declared_modifyFrame hplaced name _,
      fun g hg _ => declared_of_frame (frame_modifyFrame_ne _ hg)⟩
  trans {names more _ _ _} h h' := by
    refine ⟨h.toOnward.trans h'.toOnward, ?_, fun g hg hbase => (h'.others g hg hbase).trans (h.others g hg hbase)⟩
    rw [h'.declared, h.declared, List.map_append, Entries.setAll_append]
  onward h := h.toOnward

/-- What is steady for all frames of a store declares nothing. -/
theorem Steady.declares (h : Steady {g | g.index < base.frames.size} s t) (hf : f.index < base.frames.size) :
    Declares f constant base [] s t := ⟨h.toOnward, h.declared f hf, fun g _ hg => h.declared g hg⟩

/-- Certain frames are as they were. -/
def Spared (kept : Set FrameRef) (s t : Store) : Prop := ∀ g ∈ kept, t.frame g = s.frame g

theorem spared_tally {kept : Set FrameRef} (hkept : f ∉ kept) :
    Tally f constant base fun _ s t => s.Onward t ∧ Spared kept s t where
  quiet hvaries := by
    have haside : Aside kept _ _ := .of_varies hvaries fun _ _ => List.not_mem_nil
    exact ⟨haside.toOnward, haside.frame⟩
  declare name v _ := ⟨onward_declare _ f name _, fun g hg => frame_modifyFrame_ne _ fun heq => hkept (heq ▸ hg)⟩
  trans h h' := ⟨h.1.trans h'.1, fun g hg => (h'.2 g hg).trans (h.2 g hg)⟩
  onward h := h.1

end Store

/-! ## Bindings -/

namespace Suspension.Runs

variable {α : Type} {x : Suspension α} {s t : Store} {run : List (Store × Store)} {r : Except Halt α}

theorem of_eq (h : x = .done r t) : x.Runs s [(s, t)] r t := h ▸ .done s t r

/-- The first stretch starts where the computation does. -/
theorem exists_cons (h : x.Runs s run r t) : ∃ u rest, run = (s, u) :: rest := by
  cases h with
  | done => exact ⟨t, [], rfl⟩
  | @outcome _ u _ _ _ _ _ rest => exact ⟨u, rest, rfl⟩
  | @promise _ u _ _ _ _ _ rest => exact ⟨u, rest, rfl⟩

/-- If nothing else is declared in the frame while the computation waits, it declares in the end what the computation
has declared in it. -/
theorem declared {f : FrameRef} {constant : Bool} {base : Store} {parts : List (List String)} (hrun : x.Runs s run r t)
    (hparts : List.Forall₂ (fun part stretch => Store.Declares f constant base part stretch.1 stretch.2) parts run)
    (hmeanwhile : run.IsChain fun a b => b.1.declared f = a.2.declared f) :
    t.declared f = Entries.setAll (s.declared f) (parts.flatten.map fun name => (name, constant)) := by
  induction hrun generalizing parts with
  | done s t r =>
      obtain _ | ⟨hfirst, hrest⟩ := hparts
      cases hrest
      rw [hfirst.declared, List.flatten_cons, List.flatten_nil, List.append_nil]
  | outcome _ _ hlater ih | promise _ _ hlater ih =>
      obtain _ | ⟨hfirst, hrest⟩ := hparts
      obtain ⟨w, rest, rfl⟩ := hlater.exists_cons
      obtain ⟨hsame, hmeanwhile⟩ := List.isChain_cons_cons.1 hmeanwhile
      rw [ih hrest hmeanwhile, hsame, hfirst.declared, List.flatten_cons, List.map_append, Entries.setAll_append]

end Suspension.Runs

namespace Eval

/-- **Binding a pattern in a declaration declares the names of the pattern**, no more and no fewer. The binding is a run
from a store in which all functions and the scope see frames that exist. Each of its stretches declares the next names
in the innermost frame, and nothing in another frame that was there before. So if nothing else is declared in that frame
while the binding waits, it has got just these names. The variables of other frames are changed by defaults and computed
keys at most. -/
theorem bindPattern_declares (c : Setting) (rounds levels : Nat) (p : Pattern) (v : Value) (constant : Bool)
    {f : FrameRef} {scope : Scope} {s t : Store} {run : List (Store × Store)} (hs : s.Rooted)
    (hscope : Scope.Placed (f :: scope) s)
    (hrun : (bindPattern (c.bounded rounds levels) p v (.declare constant) (f :: scope) s).Runs s run (.ok ()) t) :
    (∃ parts, parts.flatten = p.boundNames ∧
      List.Forall₂ (fun part stretch => Store.Declares f constant s part stretch.1 stretch.2) parts run) ∧
    ((run.IsChain fun a b => b.1.declared f = a.2.declared f) →
      t.declared f = Entries.setAll (s.declared f) (p.boundNames.map fun name => (name, constant))) ∧
    ∀ kept, f ∉ kept →
      (∀ e ∈ p.embedded, ∀ u, s.Onward u →
        (link (c.bounded rounds levels) e (f :: scope) u).Heeds (Store.Spared kept) u) →
      ∀ stretch ∈ run, Store.Spared kept stretch.1 stretch.2 := by
  have hf : f.index < s.frames.size := hscope f List.mem_cons_self
  have hadmits : s.Admits ∅ (f :: scope) := ⟨hs, hscope, nofun, nofun⟩
  have htells : (bindPattern (c.bounded rounds levels) p v (.declare constant) (f :: scope)).Tells s
      (Store.Declares f constant s) p.boundNames := by
    refine bindPattern_tells (Store.declares_tally hf) p v fun e _ u hu => ?_
    have hsteady := link_inherits (c.bounded_steady rounds {g | g.index < s.frames.size} levels) e (f :: scope) u
      (hadmits.onward hu) (fun g hg => Nat.lt_of_lt_of_le hg hu.size) nofun
    exact Suspension.Heeds.tells fun a b hab => (hsteady a b hab).declares hf
  obtain ⟨parts, hflatten, hparts⟩ := (htells s (.refl s)).parts hrun
  refine ⟨⟨parts, hflatten, hparts⟩, fun hmeanwhile => ?declared, fun kept hkept hembedded stretch hstretch => ?spared⟩
  case declared =>
    rw [← hflatten]
    exact hrun.declared hparts hmeanwhile
  case spared =>
    have hspared : (bindPattern (c.bounded rounds levels) p v (.declare constant) (f :: scope)).Tells s
        (fun _ a b => a.Onward b ∧ Store.Spared kept a b) p.boundNames := by
      refine bindPattern_tells (Store.spared_tally hkept) p v fun e he u hu => ?_
      have honward := link_inherits (c.bounded_onward rounds levels).evaluated e (f :: scope) u (hadmits.onward hu)
      exact Suspension.Heeds.tells fun a b hab => ⟨honward a b hab, hembedded e he u hu a b hab⟩
    obtain ⟨parts', -, hparts'⟩ := (hspared s (.refl s)).parts hrun
    obtain ⟨i, hi, rfl⟩ := List.getElem_of_mem hstretch
    exact (hparts'.get (hparts'.length_eq ▸ hi) hi).2

/-- The pattern `[a = "n", , { b: [x = "n"], ["k"]: y = await p, ...r }, ...q]`. -/
def mixedPattern : Pattern :=
  let s := Span.point 0
  let name (n : String) : Pattern := .ident ⟨n, s⟩
  let text (n : String) : Expr := .literal ⟨.string n, "\"" ++ n ++ "\""⟩ s
  .array [.assign (name "a") (text "n"), .hole,
    .object [.init (.name ⟨"b", s⟩) (.array [.assign (name "x") (text "n")] s) false,
      .init (.computed (text "k")) (.assign (name "y") (.await (.identifier "p" s) s)) false, .rest (name "r")] s,
    .rest (name "q")] s

/-- A store with certain variables in the second of two frames. The first one has a promise and a constant. -/
def mixedStore (inner : List (String × Binding)) (arrays : Array (Array Value))
    (objects : Array (List (String × Value))) : Store :=
  { Store.empty Journal.empty with
    arrays := #[#[.string "s", .null, .object ⟨0⟩, .string "t"], #[]] ++ arrays
    objects := #[[("b", .array ⟨1⟩), ("z", .string "u")]] ++ objects
    frames := #[[("p", ⟨.promise ⟨0⟩, true⟩), ("x", ⟨.string "o", true⟩)], inner] }

/-- A setting without external functions and arguments. -/
def bareSetting : Setting := ⟨⟨[]⟩, ⟨0, []⟩, [], ⟨0⟩⟩

/-- The store in which the pattern is bound. The name `y` is there already. -/
def unboundStore : Store := mixedStore [("y", ⟨.null, false⟩)] #[] #[]

/-- The store in which the binding waits. -/
def waitingStore : Store :=
  mixedStore [("y", ⟨.null, false⟩), ("a", ⟨.string "s", true⟩), ("x", ⟨.string "n", true⟩)] #[] #[]

/-- The store that the binding leaves. -/
def boundStore : Store :=
  mixedStore [("y", ⟨.string "w", true⟩), ("a", ⟨.string "s", true⟩), ("x", ⟨.string "n", true⟩),
    ("r", ⟨.object ⟨1⟩, true⟩), ("q", ⟨.array ⟨2⟩, true⟩)] #[#[.string "t"]] #[[("z", .string "u")]]

/-- The default of `a` is not needed, and that of `x` is. The name `x` hides one of the outer frame. The binding waits
before it declares `y`. -/
theorem mixedPattern_declares :
    unboundStore.Rooted ∧ Scope.Placed [⟨1⟩, ⟨0⟩] unboundStore ∧
      (bindPattern (bareSetting.bounded 1 1) mixedPattern (.array ⟨0⟩) (.declare true) [⟨1⟩, ⟨0⟩] unboundStore).Runs
        unboundStore [(unboundStore, waitingStore), (waitingStore, boundStore)] (.ok ()) boundStore ∧
      boundStore.declared ⟨1⟩ = [("y", true), ("a", true), ("x", true), ("r", true), ("q", true)] := by
  have hrooted : unboundStore.Rooted := by
    intro ref closure hclosure
    rw [Store.closure?, show unboundStore.closures = #[] from rfl, Array.getElem?_empty] at hclosure
    cases hclosure
  have hplaced : Scope.Placed [⟨1⟩, ⟨0⟩] unboundStore := by
    intro f hf
    simp only [List.mem_cons, List.not_mem_nil, or_false] at hf
    rcases hf with rfl | rfl <;> decide
  obtain ⟨resume, hwait⟩ : ∃ resume, bindPattern (bareSetting.bounded 1 1) mixedPattern (.array ⟨0⟩) (.declare true)
      [⟨1⟩, ⟨0⟩] unboundStore = .await ⟨0⟩ waitingStore resume := ⟨_, rfl⟩
  have hend : resume (.fulfilled (.string "w")) waitingStore = .done (.ok ()) boundStore := by
    injection hwait with _ _ hresume
    rw [← hresume]
    rfl
  have hrun : (bindPattern (bareSetting.bounded 1 1) mixedPattern (.array ⟨0⟩) (.declare true) [⟨1⟩, ⟨0⟩]
      unboundStore).Runs unboundStore [(unboundStore, waitingStore), (waitingStore, boundStore)] (.ok ())
      boundStore := by
    rw [hwait]
    exact .outcome (.fulfilled (.string "w")) (.refl waitingStore) (.of_eq hend)
  obtain ⟨-, hdeclared, -⟩ := bindPattern_declares bareSetting 1 1 mixedPattern (.array ⟨0⟩) true hrooted hplaced hrun
  exact ⟨hrooted, hplaced, hrun, hdeclared (.cons_cons rfl (.singleton _))⟩

end Eval

end FieldScript
