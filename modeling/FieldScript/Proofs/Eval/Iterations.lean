import FieldScript.Proofs.Eval.Declarations

/-!
# Functions keep the round of a loop that they were made in

Every round of a loop has a frame of its own for the variables that the loop declares. A function made in a round sees
the frame of that round, and later rounds have other frames. So what such a function reads is changed by the update that
opens its round, by the test and the body of its round and by functions made there, and by nothing else.

## Strategy

* `Scope.lookup_renewed`: the variables start a round with the values that they had.
* `Eval.forInit_bound`: the first clause of a loop binds the variables in the frame of the first round. Binding a
  pattern passes all its names (`Eval.bindPattern_tells`), and what runs in between does not take them away.
* `Loop.Reaches`: the rounds that a run gets to. They are all that there is to a loop (`Loop.stmt_heeds`).
* `Loop.Reaches.frame`: each of them has its frame in front of the scope of the loop, with all variables.
* `Loop.Reaches.owns`: nobody else changes the frame (`Setting.Spares`), and the next round starts from it.
-/

namespace FieldScript

/-! ## The variables of the next round -/

namespace Scope

variable {names : List String} {current : Scope} {f : FrameRef} {s t : Store}

theorem find?_of_frames (h : ∀ g ∈ current, t.frame g = s.frame g) (name : String) :
    find? t name current = find? s name current := by
  induction current with
  | nil => rfl
  | cons g rest ih =>
      rw [find?, find?, h g List.mem_cons_self, ih fun g hg => h g (List.mem_cons_of_mem _ hg)]

/-- The value that a variable is copied with. -/
def valueIn (s : Store) (current : Scope) (name : String) : Value :=
  ((find? s name current).map (·.value)).getD .undefined

theorem valueIn_of_frames (h : ∀ g ∈ current, t.frame g = s.frame g) (name : String) :
    valueIn t current name = valueIn s current name := by
  unfold valueIn
  rw [find?_of_frames h]

/-- A frame gets the variables with the values that they have in a scope without the frame. -/
theorem lookup_copied (hf : f ∉ current) (hbound : f.index < s.frames.size) (name : String) :
    ((copied names current f s).frame f).lookup name =
      if name ∈ names then some ⟨valueIn s current name, false⟩ else (s.frame f).lookup name := by
  induction names generalizing s with
  | nil => rfl
  | cons first rest ih =>
      have hsize : f.index < (s.modifyFrame f (Entries.set first ⟨valueIn s current first, false⟩)).frames.size := by
        rwa [Store.modifyFrame, Array.size_modify]
      have hsame : ∀ g ∈ current,
          (s.modifyFrame f (Entries.set first ⟨valueIn s current first, false⟩)).frame g = s.frame g :=
        fun g hg => Store.frame_modifyFrame_ne _ fun heq => hf (heq ▸ hg)
      -- the frame is not part of the scope, so the values of the other names are the same as before
      show ((copied rest current f (s.modifyFrame f
        (Entries.set first ⟨valueIn s current first, false⟩))).frame f).lookup name = _
      rw [ih hsize, valueIn_of_frames hsame, Store.frame_modifyFrame_self _ hbound, Entries.lookup_set]
      by_cases hrest : name ∈ rest
      · simp [hrest]
      · by_cases hfirst : name = first
        · simp [hfirst]
        · simp [hrest, hfirst]

/-- A new frame gets the variables with the values that they have. -/
theorem lookup_renewed (hcurrent : current.Placed s) {name : String} (hname : name ∈ names) :
    ((copied names current ⟨s.frames.size⟩ s.addFrame.2).frame ⟨s.frames.size⟩).lookup name =
      some ⟨valueIn s current name, false⟩ := by
  have hnew : (⟨s.frames.size⟩ : FrameRef) ∉ current := fun hmem => Nat.lt_irrefl _ (hcurrent _ hmem)
  have hsize : s.addFrame.2.frames.size = s.frames.size + 1 := Array.size_push ..
  rw [lookup_copied hnew (hsize ▸ Nat.lt_succ_self _), if_pos hname,
    valueIn_of_frames fun f hf => Store.frame_addFrame_ne (hcurrent f hf)]

/-- A variable of the innermost frame. -/
theorem find?_of_lookup {rest : Scope} {name : String} {b : Binding} (h : (s.frame f).lookup name = some b) :
    find? s name (f :: rest) = some b := by
  rw [find?, h]

end Scope

/-! ## The variables of the first round -/

/-- A later store in which certain names are variables of a frame. -/
structure Store.Binds (f : FrameRef) (names : List String) (s t : Store) : Prop extends Onward s t where
  named : ∀ name ∈ names, ((t.frame f).lookup name).isSome

/-- Variables stay. -/
theorem Store.binds_tally {f : FrameRef} (constant : Bool) {base : Store} (hf : f.index < base.frames.size) :
    Store.Tally f constant base (Store.Binds f) where
  quiet hvaries := by
    have haside : Aside ∅ _ _ := .of_varies hvaries nofun
    exact ⟨haside.toOnward, nofun⟩
  declare {s} name v hs := by
    refine ⟨onward_declare s f name _, fun other hother => ?_⟩
    obtain rfl := List.mem_singleton.1 hother
    rw [frame_modifyFrame_self _ (Nat.lt_of_lt_of_le hf hs.size), Entries.lookup_set, if_pos rfl]
    rfl
  trans h h' := by
    refine ⟨h.toOnward.trans h'.toOnward, fun name hname => ?_⟩
    rcases List.mem_append.1 hname with hname | hname
    · exact h'.toOnward.bound _ name (h.named name hname)
    · exact h'.named name hname
  onward h := h.toOnward

namespace Eval

variable {c : Context} (f : FrameRef) (scope : Scope) (constant : Bool)

/-- Declarations pass the names of their targets. -/
theorem declarations_tells {base : Store} {step : List String → Store → Store → Prop}
    (htally : Store.Tally f constant base step) (h : ∀ e, (link c e (f :: scope)).Tells base step [])
    (ds : List Declarator) : (declarations c constant ds (f :: scope)).Tells base step (declaredNames ds) := by
  induction ds with
  | nil => exact .pure htally _
  | cons d ds ih =>
      obtain ⟨target, init?, span⟩ := d
      have hnames : declaredNames (.mk target init? span :: ds) = target.boundNames ++ declaredNames ds := rfl
      have htarget : ∀ v, (bindPattern c target v (.declare constant) (f :: scope)).Tells base step target.boundNames :=
        fun v => bindPattern_tells htally target v fun e _ => h e
      rw [hnames]
      cases init? with
      | none =>
          rw [declarations]
          exact (htarget .undefined).bind htally fun _ => ih
      | some e =>
          rw [declarations]
          exact (Comp.Tells.orUndefined htally (h e)).bind htally fun v => (htarget v).bind htally fun _ => ih

/-- What the first clause names for the rounds is bound in the frame of the first one. -/
theorem forInit_bound (h : c.Inherited fun {_} scope x => x.Heeds ∅ Store.Onward scope) (init : ForInit) {s t : Store}
    {names : List String} (hs : s.Admits ∅ (f :: scope)) (hend : (forInit c init (f :: scope) s).Ends (.ok names) t) :
    ∀ name ∈ names, ((t.frame f).lookup name).isSome := by
  have htally : ∀ constant, Store.Tally f constant s (Store.Binds f) := fun constant =>
    Store.binds_tally constant (hs.placed f List.mem_cons_self)
  have hlink : ∀ e, (link c e (f :: scope)).Tells s (Store.Binds f) [] := fun e u hu =>
    Suspension.Heeds.tells fun a b hab => ⟨link_inherits h.evaluated e _ u (hs.onward hu) a b hab, nofun⟩
  cases init with
  | absent =>
      rw [forInit] at hend
      cases hend
      exact nofun
  | declare d =>
      obtain ⟨kind, ds, span⟩ := d
      rw [forInit] at hend
      obtain ⟨_, u, hdeclare, hnames⟩ := Suspension.Ends.bind_inv hend
      have htells := declarations_tells f scope (kind == .const) (htally _) hlink ds s (.refl s)
      have hbinds := htells.ends (htally (kind == .const)) (fun h => ⟨h, nofun⟩) hdeclare
      cases hnames
      split
      · exact hbinds.named
      · exact nofun
  | expr e =>
      rw [forInit] at hend
      obtain ⟨_, u, _, hnames⟩ := Suspension.Ends.bind_inv hend
      cases hnames
      exact nofun

end Eval

/-! ## Rounds -/

/-- A round that ends in this way is followed by another one. -/
def Completion.GoesOn (completion : Completion) : Prop := completion = .normal ∨ completion = .continue

namespace Loop

/-- The rounds that a run of a loop gets to: the number of a round, its scope and the store in which it starts. The run
starts in the store `s`. -/
inductive Reaches (c : Context) (init : ForInit) (l : Loop) (s : Store) : Nat → Scope → Store → Prop where
  | opening {t : Store} (h : (Eval.forInit c init (⟨s.frames.size⟩ :: l.scope) s.addFrame.2).Ends (.ok l.names) t) :
      Reaches c init l s 0 (⟨s.frames.size⟩ :: l.scope) t
  | next {k : Nat} {current next : Scope} {completion : Completion} {t u v : Store} (h : Reaches c init l s k current t)
      (hturn : (l.turn c current t).Ends (.ok (some completion)) u) (hgoes : completion.GoesOn)
      (hreopen : (l.reopen c current u).Ends (.ok next) v) : Reaches c init l s (k + 1) next v

variable {c : Context} {l : Loop} {current : Scope} {s t u : Store}

/-- The next round has a new frame. The variables are put there, and then the update runs. -/
theorem reopen_run (hnames : l.names ≠ []) : l.reopen c current u =
    (Eval.discardValue c l.update (⟨u.frames.size⟩ :: l.scope) >>= fun _ => pure (⟨u.frames.size⟩ :: l.scope))
      (Scope.copied l.names current ⟨u.frames.size⟩ u.addFrame.2) := by
  have hsome : l.names.isEmpty = false := by simpa using hnames
  unfold reopen
  simp only [hsome, Bool.false_eq_true, if_false]
  exact Comp.ofAct_bind (Scope.renewed_run l.names current l.scope u) _

/-- The rounds that a run gets to are all that there is to a loop: what its first clause, the turns of these rounds and
the openings of the rounds behind them heed, the whole statement does. -/
theorem stmt_heeds {kept : Set FrameRef} {strides : Store → Store → Prop} (hstrides : Store.Strides kept strides)
    (hexist : ∀ f ∈ kept, f.index < s.frames.size) {init : ForInit} (span : Span)
    (hinit : (Eval.forInit c init (⟨s.frames.size⟩ :: l.scope) s.addFrame.2).Heeds strides s.addFrame.2)
    (hround : ∀ names k current t, Reaches c init { l with names } s k current t →
      (turn c l current t).Heeds strides t ∧ ∀ completion u,
        (turn c l current t).Ends (.ok (some completion)) u → completion.GoesOn →
          (reopen c { l with names } current u).Heeds strides u) :
    (Eval.stmt c (.for init l.test l.update l.body span) l.scope s).Heeds strides s := by
  -- by induction on the number of rounds that are left, from any round that is reached
  have hrounds : ∀ names n k current t, Reaches c init { l with names } s k current t →
      (rounds c { l with names } n current t).Heeds strides t := by
    intro names n
    induction n with
    | zero => exact fun _ _ t _ => Suspension.heeds_done.2 (hstrides.aside (.refl t))
    | succ n ih =>
        intro k current t h
        obtain ⟨hturn, hreopen⟩ := hround names k current t h
        refine hturn.bind hstrides fun completion? u hend _ => ?_
        have hstop : ∀ completion, Suspension.Heeds strides u ((pure completion : Comp Completion) u) :=
          fun _ => Suspension.heeds_done.2 (hstrides.aside (.refl u))
        have hlater : ∀ completion, completion? = some completion → completion.GoesOn →
            Suspension.Heeds strides u ((reopen c { l with names } current >>= rounds c { l with names } n) u) := by
          rintro completion rfl hgoes
          exact (hreopen completion u hend hgoes).bind hstrides fun next v hnext _ =>
            ih (k + 1) next v (h.next hend hgoes hnext)
        match completion? with
        | none | some .break | some (.return v) => exact hstop _
        | some .normal => exact hlater .normal rfl (.inl rfl)
        | some .continue => exact hlater .continue rfl (.inr rfl)
  have hopening := hinit.bind hstrides fun names t hend _ => hrounds names c.rounds 0 _ t (.opening hend)
  rw [Eval.stmt_for]
  exact hopening.behind hstrides (hstrides.aside (.addFrame hexist))

/-- The round behind one with the frame `f`, which leaves the store `u`, is opened with the frame `g`: in the store `v`,
the update is all that remains to be done. -/
structure Opens (c : Context) (l : Loop) (f : FrameRef) (u : Store) (g : FrameRef) (v : Store) : Prop where
  new : g.index = u.frames.size
  other : g ≠ f
  aside : u.Aside {f} v
  /-- No function sees the frame yet. -/
  unseen : ∀ ref closure, v.closure? ref = some closure → g ∉ closure.scope
  admits : v.Admits ∅ (g :: l.scope)
  /-- The variables start with the values that they have at the end of the round before. -/
  values : ∀ name ∈ l.names, ∃ b, (u.frame f).lookup name = some b ∧ (v.frame g).lookup name = some ⟨b.value, false⟩
  update : l.reopen c (f :: l.scope) u =
    (Eval.discardValue c l.update (g :: l.scope) >>= fun _ => pure (g :: l.scope)) v

theorem exists_opens {f : FrameRef} (hnames : l.names ≠ []) (hu : u.Admits ∅ (f :: l.scope))
    (hbound : ∀ name ∈ l.names, ((u.frame f).lookup name).isSome) : ∃ g v, l.Opens c f u g v := by
  have hexist : f.index < u.frames.size := hu.placed f List.mem_cons_self
  have haside : Store.Aside {f} u _ := .renewed l.names (f :: l.scope) fun _ hg => hg ▸ hexist
  have hcopied := Scope.copied_varies l.names (f :: l.scope) ⟨u.frames.size⟩ u.addFrame.2
  refine ⟨⟨u.frames.size⟩, _, rfl, fun heq => Nat.ne_of_gt hexist (congrArg FrameRef.index heq), haside,
    fun ref closure hclosure hmem => ?_, hu.outer.inner haside.toOnward (hcopied.size.trans (Array.size_push ..)),
    fun name hname => ?_, reopen_run hnames⟩
  · -- functions see frames that were there before
    have hfound : u.closure? ref = some closure := by
      rw [Store.closure?, hcopied.closures] at hclosure
      exact hclosure
    exact Nat.lt_irrefl _ (hu.rooted ref closure hfound _ hmem)
  · obtain ⟨b, hb⟩ := Option.isSome_iff_exists.1 (hbound name hname)
    have hvalue : Scope.valueIn u (f :: l.scope) name = b.value := by
      rw [Scope.valueIn, Scope.find?_of_lookup hb]
      rfl
    exact ⟨b, hb, hvalue ▸ Scope.lookup_renewed hu.placed hname⟩

/-- A round has a frame in front of the scope of the loop, and all its variables are there. -/
theorem Reaches.frame (hc : c.Inherited fun {_} scope x => x.Heeds ∅ Store.Onward scope) {init : ForInit}
    (hs : s.Admits ∅ l.scope) (hnames : l.names ≠ []) {k : Nat} (h : Reaches c init l s k current t) :
    ∃ f, current = f :: l.scope ∧ s.frames.size ≤ f.index ∧ s.Onward t ∧ t.Admits ∅ current ∧
      ∀ name ∈ l.names, ((t.frame f).lookup name).isSome := by
  induction h with
  | @opening t hinit =>
      have haside : Store.Aside ∅ s s.addFrame.2 := .addFrame hs.exist
      have hfirst : s.addFrame.2.Admits ∅ (⟨s.frames.size⟩ :: l.scope) :=
        hs.inner haside.toOnward (Array.size_push ..)
      have honward : s.addFrame.2.Onward t := hinit.onward (Eval.forInit_inherits hc init _ _ hfirst)
      exact ⟨⟨s.frames.size⟩, rfl, Nat.le_refl _, haside.toOnward.trans honward, hfirst.onward honward,
        Eval.forInit_bound _ l.scope hc init hfirst hinit⟩
  | @next k current next completion t u v h hturn hgoes hreopen ih =>
      obtain ⟨f, rfl, hf, hst, ht, hbound⟩ := ih
      have htu : t.Onward u := hturn.onward (Eval.turn_inherits hc (Eval.stmt_inherits hc l.body) _ t ht)
      obtain ⟨g, w, hopens⟩ := exists_opens (c := c) hnames (ht.onward htu) fun name hname =>
        htu.bound f name (hbound name hname)
      rw [hopens.update] at hreopen
      obtain ⟨_, w', hupdate, hpure⟩ := Suspension.Ends.bind_inv hreopen
      cases hpure
      have hwv := hupdate.onward (Eval.discardValue_inherits hc.evaluated l.update _ _ hopens.admits)
      refine ⟨g, rfl, ?_, hst.trans (htu.trans (hopens.aside.toOnward.trans hwv)), hopens.admits.onward hwv, ?_⟩
      · rw [hopens.new]
        exact (hst.trans htu).size
      · intro name hname
        obtain ⟨b, _, hb⟩ := hopens.values name hname
        exact hwv.bound g name (Option.isSome_of_eq_some hb)

/-- What it means that a round has the frame `f` for its own. The run of the loop began in the store `s`, and the round
starts in the store `t`. -/
structure Owns (c : Setting) (rounds levels : Nat) (l : Loop) (s : Store) (current : Scope) (t : Store)
    (f : FrameRef) : Prop where
  /-- The scope of the round is that of the loop with a frame in front. -/
  scope : current = f :: l.scope
  /-- The frame has come since the loop began, so it is not in the scope of the loop. -/
  fresh : s.frames.size ≤ f.index
  outside : f ∉ l.scope
  /-- The store of the round is in order. -/
  admits : t.Admits ∅ current
  /-- The variables of the round are those of the frame from now on. -/
  bound : ∀ u, t.Onward u → ∀ name ∈ l.names,
    ∃ b, (u.frame f).lookup name = some b ∧ Scope.find? u name current = some b
  /-- Whatever is called, the frame is left alone unless a function that sees it runs. -/
  calls : ∀ (levels : Nat) (g : Function) (args : List Value) (u : Store), u.Rooted → f.index < u.frames.size →
    (c.callFunction rounds levels g args u).Heeds (c.Spares rounds {f}) u
  /-- So it is by all that runs on its own. -/
  jobs : ∀ (levels : Nat) (job : Job) (u : Store), u.Rooted → f.index < u.frames.size →
    ((c.bounded rounds levels).runJob job u).Heeds (c.Spares rounds {f}) u
  /-- So it is by everything that runs in a scope without it. -/
  elsewhere : ∀ (levels : Nat) (st : Stmt) (scope : Scope) (u : Store), u.Admits {f} scope →
    (Eval.stmt (c.bounded rounds levels) st scope u).Heeds (c.Spares rounds {f}) u
  /-- So it is by what the loop does once the body of the round is through: by opening the next round, by the update,
  and by the tests, bodies and updates of all later rounds. -/
  rest : ∀ (completion : Completion) (u : Store),
    (l.turn (c.bounded rounds levels) current t).Ends (.ok (some completion)) u → completion.GoesOn → ∀ n,
      ((l.reopen (c.bounded rounds levels) current >>= l.rounds (c.bounded rounds levels) n) u).Heeds
        (c.Spares rounds {f}) u
  /-- The next round starts from this one. -/
  next : ∀ (completion : Completion) (u : Store),
    (l.turn (c.bounded rounds levels) current t).Ends (.ok (some completion)) u → completion.GoesOn →
      ∃ g v, l.Opens (c.bounded rounds levels) f u g v

/-- **Every round of a loop that declares variables has them for its own.** They are in a new frame. Once the body of
the round is through, whether or not by `continue`, the frame is only changed by functions that see it, and these are
made in the round or by such functions. The next round starts with the values in the frame and with the update. -/
theorem Reaches.owns (c : Setting) (rounds levels : Nat) {init : ForInit} {l : Loop} {s : Store} (hs : s.Rooted)
    (hscope : l.scope.Placed s) (hnames : l.names ≠ []) {k : Nat} {current : Scope} {t : Store}
    (h : Reaches (c.bounded rounds levels) init l s k current t) : ∃ f, l.Owns c rounds levels s current t f := by
  have honward := c.bounded_onward rounds levels
  obtain ⟨f, rfl, hf, _, ht, hbound⟩ := h.frame honward ⟨hs, hscope, nofun, nofun⟩ hnames
  have houtside : f ∉ l.scope := fun hmem => Nat.not_le_of_lt (hscope f hmem) hf
  have hspares := c.bounded_spares rounds {f}
  -- the turn leaves a store that is in order, too
  have hturn : ∀ {completion u}, (l.turn (c.bounded rounds levels) (f :: l.scope) t).Ends (.ok (some completion)) u →
      t.Onward u := fun hend =>
    hend.onward (Eval.turn_inherits honward (Eval.stmt_inherits honward l.body) _ t ht)
  refine ⟨f, rfl, hf, houtside, ht, fun u hu name hname => ?bound,
    fun levels g args u hu hexist => c.callFunction_spares rounds levels g args hu fun _ hg => hg ▸ hexist,
    fun levels job u hu hexist => c.runJob_spares rounds levels job hu fun _ hg => hg ▸ hexist,
    fun levels st scope u hu => Eval.stmt_inherits (hspares levels) st scope u hu,
    fun completion u hend _ n => ?rest, fun completion u hend _ => ?next⟩
  case bound =>
    obtain ⟨b, hb⟩ := Option.isSome_iff_exists.1 (hu.bound f name (hbound name hname))
    exact ⟨b, hb, Scope.find?_of_lookup hb⟩
  case rest =>
    -- what comes behind the round runs in the scope of the loop, which lacks its frame
    have hu := ht.onward (hturn hend)
    have hscoped : u.Admits {f} l.scope :=
      ⟨hu.rooted, hu.outer.placed, fun _ hg => hg ▸ hu.placed f List.mem_cons_self, fun _ hg => hg ▸ houtside⟩
    exact Eval.reopen_inherits (hspares levels) hnames
      (Eval.rounds_inherits (hspares levels) (Eval.stmt_inherits (hspares levels) l.body) n) _ u hscoped
  case next =>
    have htu := hturn hend
    exact exists_opens hnames (ht.onward htu) fun name hname => htu.bound f name (hbound name hname)

/-- The clause `let x = "a"`. -/
def makingInit : ForInit :=
  let s := Span.point 0
  .declare (.mk .let [.mk (.ident ⟨"x", s⟩) (some (.literal ⟨.string "a", "\"a\""⟩ s)) s] s)

/-- The loop `for (let x = "a"; ; x = "b") { () => x; continue; }`. -/
def making : Loop :=
  let s := Span.point 0
  ⟨none, some (.assign .assign (.ident ⟨"x", s⟩) (.literal ⟨.string "b", "\"b\""⟩ s) s),
    .block (.mk [.expr (.arrow [] (.expr (.identifier "x" s)) false s) s, .continue s] s), ["x"], []⟩

/-- The store of this loop with certain frames and with functions in certain scopes. -/
def makingStore (frames : List (List (String × Binding))) (scopes : List Scope) : Store :=
  { Store.empty Journal.empty with
    frames := ⟨frames⟩
    closures := ⟨scopes.map fun scope => ⟨[], .expr (.identifier "x" (Span.point 0)), false, scope⟩⟩ }

/-- The second round has the third frame, behind those of the first round and of the block in it. The function that was
made there still sees the first one. -/
theorem making_owns :
    let c : Setting := ⟨⟨[]⟩, ⟨0, []⟩, [], ⟨0⟩⟩
    let s := makingStore [] []
    let t := makingStore [[("x", ⟨.string "a", false⟩)], [], [("x", ⟨.string "b", false⟩)]] [[⟨1⟩, ⟨0⟩]]
    s.Rooted ∧ making.scope.Placed s ∧ making.names ≠ [] ∧
      Reaches (c.bounded 1 1) makingInit making s 1 [⟨2⟩] t ∧ ∃ f, making.Owns c 1 1 s [⟨2⟩] t f := by
  intro c s t
  have hrooted : s.Rooted := by
    intro ref closure hclosure
    rw [Store.closure?, show s.closures = #[] from rfl, Array.getElem?_empty] at hclosure
    cases hclosure
  have hplaced : making.scope.Placed s := fun _ hf => absurd hf List.not_mem_nil
  have hnames : making.names ≠ [] := List.cons_ne_nil _ _
  have hinit : (Eval.forInit (c.bounded 1 1) makingInit [⟨0⟩] s.addFrame.2).Ends (.ok making.names)
      (makingStore [[("x", ⟨.string "a", false⟩)]] []) := .of_eq rfl
  have hturn : (making.turn (c.bounded 1 1) [⟨0⟩] (makingStore [[("x", ⟨.string "a", false⟩)]] [])).Ends
      (.ok (some .continue)) (makingStore [[("x", ⟨.string "a", false⟩)], []] [[⟨1⟩, ⟨0⟩]]) := .of_eq rfl
  have hreopen : (making.reopen (c.bounded 1 1) [⟨0⟩]
      (makingStore [[("x", ⟨.string "a", false⟩)], []] [[⟨1⟩, ⟨0⟩]])).Ends (.ok [⟨2⟩]) t := .of_eq rfl
  have hreaches : Reaches (c.bounded 1 1) makingInit making s 1 [⟨2⟩] t :=
    .next (.opening hinit) hturn (.inr rfl) hreopen
  exact ⟨hrooted, hplaced, hnames, hreaches, Reaches.owns c 1 1 hrooted hplaced hnames hreaches⟩

end Loop

end FieldScript
