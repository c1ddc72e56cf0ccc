import FieldScript.Eval.Invoke
import FieldScript.Proofs.Eval.Agreements
import FieldScript.Proofs.Settle.Helpers

/-!
# Runs of whole bodies

A run of a body starts with the object of its arguments, two frames, and the functions of the prelude that
the body needs. From there on the body as it was written and the settled body go their own ways.

* `Store.start`: the store in which a run starts. It holds whatever it refers to.
* `Eval.stmts_functions`: declarations of functions run alike wherever they are run.
* `Scene.returns`: if an expression agrees with what has become of it, and the first run returns a value,
  the second one returns a value that is alike.
-/

namespace FieldScript

open Settle (returning)

/-! ## Documents in the store -/

/-- A store with more cells, which holds whatever it refers to if the first one does. -/
structure Store.Grows (s t : Store) : Prop where
  extended : s.Extends t
  closed : s.Closed → t.Closed
  frames : t.frames = s.frames
  closures : t.closures = s.closures
  journal : t.journal = s.journal

namespace Store.Grows

variable {s t u : Store}

theorem refl (s : Store) : s.Grows s := ⟨Extends.refl s, id, rfl, rfl, rfl⟩

theorem trans (h : s.Grows t) (h' : t.Grows u) : s.Grows u :=
  ⟨h.extended.trans h'.extended, h'.closed ∘ h.closed, h'.frames.trans h.frames, h'.closures.trans h.closures,
    h'.journal.trans h.journal⟩

end Store.Grows

namespace Value

theorem ofJson_run_array (items : List Json) (s : Store) : (ofJson (.array items)).run s =
    (.array (((ofJsonItems items).run s).2.addArray ((ofJsonItems items).run s).1.toArray).1,
      (((ofJsonItems items).run s).2.addArray ((ofJsonItems items).run s).1.toArray).2) := by
  rw [ofJson]
  rfl

theorem ofJson_run_object (members : List (String × Json)) (s : Store) : (ofJson (.object members)).run s =
    (.object (((ofJsonMembers members).run s).2.addObject ((ofJsonMembers members).run s).1).1,
      (((ofJsonMembers members).run s).2.addObject ((ofJsonMembers members).run s).1).2) := by
  rw [ofJson]
  rfl

theorem ofJsonItems_run_cons (j : Json) (rest : List Json) (s : Store) : (ofJsonItems (j :: rest)).run s =
    (((ofJson j).run s).1 :: ((ofJsonItems rest).run ((ofJson j).run s).2).1,
      ((ofJsonItems rest).run ((ofJson j).run s).2).2) := by
  rw [ofJsonItems]
  rfl

theorem ofJsonMembers_run_cons (name : String) (j : Json) (rest : List (String × Json)) (s : Store) :
    (ofJsonMembers ((name, j) :: rest)).run s =
      ((name, ((ofJson j).run s).1) :: ((ofJsonMembers rest).run ((ofJson j).run s).2).1,
        ((ofJsonMembers rest).run ((ofJson j).run s).2).2) := by
  rw [ofJsonMembers]
  rfl

mutual

/-- The value of a document, and its cells. -/
theorem ofJson_grows (j : Json) (s : Store) : s.Grows ((ofJson j).run s).2 ∧
    ((ofJson j).run s).2.Holds ((ofJson j).run s).1 := by
  cases j with
  | null => exact ⟨.refl s, .atom _ rfl rfl⟩
  | bool b => exact ⟨.refl s, .atom _ rfl rfl⟩
  | int n => exact ⟨.refl s, .atom _ rfl rfl⟩
  | float x => exact ⟨.refl s, .atom _ rfl rfl⟩
  | string t => exact ⟨.refl s, .atom _ rfl rfl⟩
  | array items =>
      rw [ofJson_run_array]
      obtain ⟨hgrows, hheld⟩ := ofJsonItems_grows items s
      refine ⟨hgrows.trans ⟨Store.extends_addArray _, fun hclosed => hclosed.addArray ?_, rfl, rfl, rfl⟩, ?_⟩
      · exact fun v hv => hheld v (by simpa using hv)
      · exact .array ⟨rfl, by simp [Store.Has, Store.addArray]⟩
  | object members =>
      rw [ofJson_run_object]
      obtain ⟨hgrows, hheld⟩ := ofJsonMembers_grows members s
      refine ⟨hgrows.trans ⟨Store.extends_addObject _, fun hclosed => hclosed.addObject hheld, rfl, rfl, rfl⟩, ?_⟩
      exact .object ⟨rfl, by simp [Store.Has, Store.addObject]⟩

theorem ofJsonItems_grows (js : List Json) (s : Store) : s.Grows ((ofJsonItems js).run s).2 ∧
    ∀ v ∈ ((ofJsonItems js).run s).1, ((ofJsonItems js).run s).2.Holds v := by
  cases js with
  | nil => exact ⟨.refl s, nofun⟩
  | cons j rest =>
      rw [ofJsonItems_run_cons]
      obtain ⟨hgrows, hheld⟩ := ofJson_grows j s
      obtain ⟨hgrows', hheld'⟩ := ofJsonItems_grows rest ((ofJson j).run s).2
      refine ⟨hgrows.trans hgrows', fun v hv => ?_⟩
      rcases List.mem_cons.1 hv with rfl | hv
      · exact hheld.mono hgrows'.extended.within
      · exact hheld' v hv

theorem ofJsonMembers_grows (js : List (String × Json)) (s : Store) : s.Grows ((ofJsonMembers js).run s).2 ∧
    ∀ e ∈ ((ofJsonMembers js).run s).1, ((ofJsonMembers js).run s).2.Holds e.2 := by
  cases js with
  | nil => exact ⟨.refl s, nofun⟩
  | cons member rest =>
      obtain ⟨name, j⟩ := member
      rw [ofJsonMembers_run_cons]
      obtain ⟨hgrows, hheld⟩ := ofJson_grows j s
      obtain ⟨hgrows', hheld'⟩ := ofJsonMembers_grows rest ((ofJson j).run s).2
      refine ⟨hgrows.trans hgrows', fun e he => ?_⟩
      rcases List.mem_cons.1 he with rfl | he
      · exact hheld.mono hgrows'.extended.within
      · exact hheld' e he

end

end Value

/-! ## The start of a run -/

/-- The object of the arguments, and the store in which a run starts. -/
def Store.start (data : Json) (journal : Journal) : ObjectRef × Store :=
  let (entries, s) := (argumentEntries data).run (Store.empty journal)
  s.addObject entries

theorem Store.closed_empty (journal : Journal) : (Store.empty journal).Closed where
  functional h h' := h.1.symm.trans h'.1
  injective h h' := h.1.trans h'.1.symm
  arrays h := absurd h.2 (Nat.not_lt_zero _)
  objects h := absurd h.2 (Nat.not_lt_zero _)

theorem Store.start_spec (data : Json) (journal : Journal) :
    (Store.start data journal).2.Closed ∧ (Store.start data journal).2.frames = #[] ∧
      (Store.start data journal).2.journal = journal ∧
      (Store.start data journal).2.Has (.object (Store.start data journal).1.index) := by
  have hentries : (Store.empty journal).Grows ((argumentEntries data).run (Store.empty journal)).2 ∧
      ∀ e ∈ ((argumentEntries data).run (Store.empty journal)).1,
        ((argumentEntries data).run (Store.empty journal)).2.Holds e.2 := by
    cases data with
    | object members => exact Value.ofJsonMembers_grows members _
    | _ => exact ⟨.refl _, nofun⟩
  obtain ⟨hgrows, hheld⟩ := hentries
  refine ⟨(hgrows.closed (closed_empty journal)).addObject hheld, hgrows.frames, hgrows.journal, ?_⟩
  exact Nat.lt_of_lt_of_eq (Nat.lt_succ_self _) (Array.size_push _).symm

/-- The scope of the statements of a body. -/
def Scope.body : Scope := [⟨1⟩, ⟨0⟩]

/-- The store in which the statements of a body run. -/
def Store.opened (s : Store) : Store := { s with frames := #[[], []] }

theorem Store.opened_bounds (s : Store) : ∀ f ∈ Scope.body, f.index < s.opened.frames.size := by
  intro f hf
  rcases List.mem_pair.1 hf with rfl | rfl
  · exact Nat.one_lt_two
  · exact Nat.two_pos

/-- A body runs its statements in a scope of its own. -/
theorem Context.runBody_eq (c : Context) (stmts : List Stmt) (span : Span) {s : Store} (h : s.frames = #[]) :
    c.runBody (.mk stmts span) s =
      (Eval.stmts c stmts Scope.body s.opened).bind fun x => x.value >>= Comp.settle := by
  obtain ⟨arrays, objects, closures, frames, journal⟩ := s
  cases h
  have hrun : ∃ answer : Completion → Comp Value, c.runBody (.mk stmts span) ⟨arrays, objects, closures, #[], journal⟩ =
      (Eval.block c (.mk stmts span) [⟨0⟩] ⟨arrays, objects, closures, #[[]], journal⟩).bind answer ∧
        ∀ x, answer x = x.value >>= Comp.settle :=
    ⟨_, rfl, fun x => by cases x <;> rfl⟩
  have hblock : Eval.block c (.mk stmts span) [⟨0⟩] ⟨arrays, objects, closures, #[[]], journal⟩ =
      Eval.stmts c stmts Scope.body ⟨arrays, objects, closures, #[[], []], journal⟩ := by
    rw [Eval.block]
    rfl
  obtain ⟨answer, hrun, hanswer⟩ := hrun
  rw [hrun, hblock, funext hanswer]
  rfl

/-- What an invocation that comes to an end does. -/
theorem invoke_ok {fuel : Nat} {capabilities : Capabilities} {api : Api} {args : List String} {body : Block}
    {data : Json} {journal journal' : Journal} {answer : Answer} :
    invoke fuel capabilities api args body data journal = .ok ⟨answer, journal'⟩ ↔ ∃ result t,
      Comp.run ((⟨capabilities, api, args, (Store.start data journal).1⟩ : Setting).context fuel).runJob fuel
        (((⟨capabilities, api, args, (Store.start data journal).1⟩ : Setting).context fuel).runBody body)
        (Store.start data journal).2 = .ok (result, t) ∧ t.answer result = .ok answer ∧ t.journal = journal' := by
  have hinvoke : invoke fuel capabilities api args body data journal =
      (Comp.run ((⟨capabilities, api, args, (Store.start data journal).1⟩ : Setting).context fuel).runJob fuel
        (((⟨capabilities, api, args, (Store.start data journal).1⟩ : Setting).context fuel).runBody body)
        (Store.start data journal).2 >>= fun p => p.2.answer p.1 >>= fun answer =>
          Pure.pure ⟨answer, p.2.journal⟩) := rfl
  rw [hinvoke]
  constructor
  · intro h
    obtain ⟨⟨result, t⟩, hrun, hrest⟩ := Except.exists_of_bind_eq_ok h
    obtain ⟨answer, hanswer, hpure⟩ := Except.exists_of_bind_eq_ok hrest
    cases hpure
    exact ⟨result, t, hrun, hanswer, rfl⟩
  · rintro ⟨result, t, hrun, hanswer, rfl⟩
    rw [hrun]
    show (t.answer result >>= fun answer => Pure.pure (Invocation.mk answer t.journal)) = _
    rw [hanswer]
    rfl

/-! ## Functions of the prelude -/

/-- A store with another function under a name in a frame. -/
def Store.withFunction (s : Store) (f : FrameRef) (name : String) (closure : Closure) : Store :=
  (s.addClosure closure).2.modifyFrame f
    (Entries.set name ⟨.function (.closure (s.addClosure closure).1), true⟩)

/-- Constants of a scope are functions with certain names, apart from those of an earlier store. -/
structure Furnished (names : String → Prop) (σ : Scope) (s t : Store) : Prop where
  arrays : t.arrays = s.arrays
  objects : t.objects = s.objects
  journal : t.journal = s.journal
  frames : t.frames.size = s.frames.size
  bound : ∀ {name : String} {b : Binding}, Scope.find? t name σ = some b → Scope.find? s name σ = some b ∨
    names name ∧ b.constant = true ∧ ∃ ref, b.value = .function (.closure ref)

namespace Furnished

variable {names : String → Prop} {σ : Scope} {s t u : Store}

theorem refl : Furnished names σ s s := ⟨rfl, rfl, rfl, rfl, .inl⟩

theorem trans (h : Furnished names σ s t) (h' : Furnished names σ t u) : Furnished names σ s u where
  arrays := h'.arrays.trans h.arrays
  objects := h'.objects.trans h.objects
  journal := h'.journal.trans h.journal
  frames := h'.frames.trans h.frames
  bound hb := (h'.bound hb).elim h.bound .inr

theorem extended (h : Furnished names σ s t) : s.Extends t :=
  ⟨fun hi => by rwa [h.arrays], fun hi => by rwa [h.objects]⟩

theorem closed (h : Furnished names σ s t) (hclosed : s.Closed) : t.Closed := by
  have hself : t.self = s.self := by
    funext x z
    cases x <;> simp [Store.self, Store.Has, h.arrays, h.objects]
  have hheap := Heap.extend hclosed h.extended h.extended
  rwa [← hself] at hheap

end Furnished

section

variable {names : String → Prop} {f : FrameRef} {σ : Scope} {s : Store} {name : String}

/-- A variable that is declared changes no other name. -/
theorem Scope.find?_set_ne {other : String} {b : Binding} (h : other ≠ name) :
    Scope.find? (s.modifyFrame f (Entries.set name b)) other σ = Scope.find? s other σ := by
  induction σ with
  | nil => rfl
  | cons g σ ih =>
      have hframe : ((s.modifyFrame f (Entries.set name b)).frame g).lookup other = (s.frame g).lookup other := by
        by_cases hg : g = f
        · subst hg
          by_cases hbound : g.index < s.frames.size
          · rw [Store.frame_modifyFrame_self _ hbound, Entries.lookup_set, if_neg h]
          · simp [Store.frame, Store.modifyFrame, hbound]
        · rw [Store.frame_modifyFrame_ne _ hg]
      unfold Scope.find?
      rw [hframe, ih]

theorem Store.furnished_withFunction (hf : f.index < s.frames.size) (hname : names name)
    (closure : Closure) : Furnished names (f :: σ) s (s.withFunction f name closure) := by
  refine ⟨rfl, rfl, rfl, by simp [withFunction, addClosure, modifyFrame], ?_⟩
  intro other b hb
  by_cases heq : other = name
  · subst heq
    have hdeclared : Scope.find? (s.withFunction f other closure) other (f :: σ) =
        some ⟨.function (.closure (s.addClosure closure).1), true⟩ :=
      Scope.find?_declared (S := (s.addClosure closure).2) hf
    cases hdeclared.symm.trans hb
    exact .inr ⟨hname, rfl, _, rfl⟩
  · refine .inl (Eq.trans (Eq.symm ?_) hb)
    have hsame : Scope.find? (s.addClosure closure).2 other (f :: σ) = Scope.find? s other (f :: σ) :=
      Scope.find?_congr (s := (s.addClosure closure).2) (t := s) rfl other (f :: σ)
    exact (Scope.find?_set_ne heq).trans hsame

/-- A constant becomes the function it is declared to be. -/
theorem Eval.stmt_arrow (c : Context) (s : Store) (id : Ident) (ps : List Pattern) (body : ArrowBody)
    (aspan dspan vspan span : Span) :
    Eval.stmt c (.declare (.mk .const [.mk (.ident id) (some (.arrow ps body false aspan)) dspan] vspan) span) (f :: σ) s =
      .done (.ok .normal) (s.withFunction f id.name ⟨ps, body, false, f :: σ⟩) := by
  rw [Eval.stmt, Eval.declare, Eval.declarations, Eval.declarations]
  simp only [Eval.link, Eval.bindPattern]
  rfl

/-- A declaration of a function does the same wherever it runs. -/
theorem Eval.stmt_function {d : Stmt} (h : d.isFunction name = true) : ∃ closure : Closure,
    ∀ (c : Context) (s : Store), Eval.stmt c d (f :: σ) s = .done (.ok .normal) (s.withFunction f name closure) := by
  obtain ⟨ispan, ps, body, aspan, dspan, vspan, span, rfl⟩ := Stmt.exists_of_isFunction h
  exact ⟨⟨ps, body, false, f :: σ⟩, fun c s => Eval.stmt_arrow c s ⟨name, ispan⟩ ps body aspan dspan vspan span⟩

/-- Declarations of functions in front of a body. -/
theorem Eval.stmts_functions (names : String → Prop) {ds : List Stmt} (hf : f.index < s.frames.size)
    (hds : ∀ d ∈ ds, ∃ name, names name ∧ d.isFunction name = true) :
    ∃ t, Furnished names (f :: σ) s t ∧ ∀ (c : Context) (rest : List Stmt),
      Eval.stmts c (ds ++ rest) (f :: σ) s = Eval.stmts c rest (f :: σ) t := by
  induction ds generalizing s with
  | nil => exact ⟨s, .refl, fun _ _ => rfl⟩
  | cons d ds ih =>
      obtain ⟨name, hname, hfunction⟩ := hds d List.mem_cons_self
      obtain ⟨closure, hrun⟩ := Eval.stmt_function (f := f) (σ := σ) hfunction
      have hfurnished := Store.furnished_withFunction (σ := σ) hf hname closure
      obtain ⟨t, ht, hrest⟩ := ih (s := s.withFunction f name closure) (by rw [hfurnished.frames]; exact hf)
        fun d hd => hds d (List.mem_cons_of_mem _ hd)
      refine ⟨t, hfurnished.trans ht, fun c rest => ?_⟩
      rw [List.cons_append, Eval.stmts_cons]
      show (Eval.stmt c d (f :: σ) s).bind _ = _
      rw [hrun]
      exact hrest c rest

end

/-! ## Both runs of a body -/

/-- A computation that ends at once is run to its end. -/
theorem Comp.run_of_done {α : Type} {job : Job → Comp Value} {fuel : Nat} {x : Comp α} {s t t' : Store}
    {r : Except Halt α} {r' : Except Raised α} (hdone : x s = .done r t)
    (hrun : x.run job fuel s = .ok (r', t')) : r = Raised.halt r' ∧ t = t' := by
  cases fuel with
  | zero =>
      exfalso
      unfold Comp.run at hrun
      rw [hdone] at hrun
      rcases r with (r | a) | a <;> cases hrun
  | succ fuel =>
      unfold Comp.run at hrun
      rw [hdone] at hrun
      rcases r with (r | a) | a <;> cases hrun <;> exact ⟨rfl, rfl⟩

/-- An invocation that returns a document, of a body that runs to its end at once. -/
theorem exists_value_of_invoke {fuel : Nat} {capabilities : Capabilities} {api : Api} {args : List String}
    {body : Block} {data j : Json} {journal journal' : Journal} {r : Except Halt Value} {t : Store}
    (hrun : ((⟨capabilities, api, args, (Store.start data journal).1⟩ : Setting).context fuel).runBody body
      (Store.start data journal).2 = .done r t)
    (h : invoke fuel capabilities api args body data journal = .ok ⟨.ok j, journal'⟩) :
    ∃ v, r = .ok v ∧ t.document v = .ok j ∧ t.journal = journal' := by
  obtain ⟨result, t', hended, hanswer, rfl⟩ := invoke_ok.1 h
  obtain ⟨rfl, rfl⟩ := Comp.run_of_done hrun hended
  cases result with
  | error raised =>
      obtain ⟨message, -, hmessage⟩ := Except.exists_of_bind_eq_ok hanswer
      cases hmessage
  | ok v =>
      obtain ⟨document, hdocument, hpure⟩ := Except.exists_of_bind_eq_ok hanswer
      cases hpure
      exact ⟨v, rfl, hdocument, rfl⟩

/-- An invocation of a body that reaches a value, given enough steps. -/
theorem invoke_of_reaches (scene : Scene) {body : Block} {data j : Json} {journal : Journal} {v : Value} {t : Store}
    (hdata : scene.setting.data = (Store.start data journal).1)
    (hrun : Reaches scene.run (fun m => (scene.settled m).runBody body (Store.start data journal).2) (.ok v) t)
    (hdocument : t.document v = .ok j) :
    ∃ steps, ∀ fuel ≥ steps, invoke fuel scene.setting.capabilities scene.setting.api scene.setting.args body data
      journal = .ok ⟨.ok j, t.journal⟩ := by
  obtain ⟨k, hlands⟩ := hrun
  refine ⟨k + 2, fun fuel hfuel => ?_⟩
  obtain ⟨m, rfl⟩ : ∃ m, fuel = m + 1 := ⟨fuel - 1, by omega⟩
  have hended : Comp.run (scene.run m) (m + 1) ((scene.settled m).runBody body) (Store.start data journal).2 =
      .ok (.ok v, t) := Comp.run_lands hfuel (hlands m)
  refine invoke_ok.2 ⟨.ok v, t, ?_, ?_, rfl⟩
  · rw [← hdata]
    exact hended
  · show (t.document v >>= fun j => Pure.pure (Except.ok j)) = _
    rw [hdocument]
    rfl

namespace Scene

variable {scene : Scene} {n : Nat} {shape : Shape} {D : List Stmt} {e e' : Expr} {T : Store}

/-- The stores of both runs at the start. -/
theorem Sound.at (h : scene.Sound T) (hhears : scene.hears T.journal T.journal) (hinside : scene.env ≠ [])
    (hbounds : ∀ f ∈ scene.env, f.index < T.frames.size) : scene.At T T.journal T.self T scene.env where
  heap := h.closed
  data := ⟨rfl, h.data⟩
  hears := hhears
  inside := hinside
  bounds := hbounds
  names name _ := h.find? name

/-- If the first run of an expression returns a value, the second run returns a value that is alike. -/
theorem Yields.returns (h : scene.Yields 0 n shape D e e') (hordered : shape.ordered = true)
    (hsound : scene.Sound T) (hat : scene.At T T.journal T.self T scene.env) (span : Span) :
    ∃ r T', orUndefined (Eval.link scene.reference e scene.env) T = .done r T' ∧ ∀ v, r = .ok v →
      v.Like T'.self v ∧ ∃ β S' w, scene.At T' T'.journal β S' scene.env ∧ v.Like β w ∧
        Reaches scene.run (fun m => Eval.stmts (scene.settled m) (D ++ [Stmt.return (some e') span]) scene.env T)
          (.ok (.return w)) S' := by
  obtain ⟨r, T', hrun, hok⟩ : scene.Sim T 0 n shape.deeds D _ Kind.unit () _ Kind.value :=
    Matches.sim h hordered hsound rfl
  refine ⟨r, T', hrun, fun v hv => ?_⟩
  obtain ⟨-, -, hheld, M, X, B, hpart⟩ := hok v hv
  have hpart' : scene.Part 0 n ⟨true, true⟩ T M T' X B D _ _ _ _ v := hpart.weaken (fun _ => rfl) fun _ => rfl
  have hold : ∀ {x z : Cell} {t : Store}, T.self x z → ¬T.Between t x := fun hx hbetween => hbetween.2 hx.2
  obtain ⟨β₁, S₁, hfront, hat₁, -, hnew, hbound, -⟩ :=
    hpart'.front M T.self T scene.env (Store.Extends.refl M) (hat.extend hpart'.start) fun _ _ => hold
  obtain ⟨β', S', w, hrest, hat', -, -, -, hlike⟩ :=
    hpart'.rest M T' M.journal T'.journal β₁ S₁ scene.env () .exact .exact hat₁ hbound
      (fun x z hx hbetween => (hnew x z hx).elim (fun h => absurd hbetween (hold h)) id) rfl
  refine ⟨hheld, β', S', w, hat', hlike, hfront.stmts_append ?_⟩
  simp only [Eval.stmts_return]
  exact hrest.bind (f := fun _ v => (Pure.pure (Completion.return v) : Comp Completion)) Reaches.done

/-- What the first run of a body that ends with an expression comes to. -/
theorem returns_reference {s : Store} {helpers : List Stmt} {r : Except Halt Value} {T' : Store} {span : Span}
    (hstart : s.frames = #[]) (henv : scene.env = Scope.body)
    (hhelpers : ∀ (c : Context) (rest : List Stmt),
      Eval.stmts c (helpers ++ rest) Scope.body s.opened = Eval.stmts c rest Scope.body T)
    (hrun : orUndefined (Eval.link scene.reference e scene.env) T = .done r T')
    (hheld : ∀ v, r = .ok v → T'.Holds v) :
    scene.reference.runBody (.mk (helpers ++ [returning e]) span) s = .done r T' := by
  rw [Context.runBody_eq _ _ _ hstart, hhelpers, returning, Eval.stmts_return, ← henv]
  show ((orUndefined (Eval.link scene.reference e scene.env) T).bind _).bind _ = _
  rw [hrun]
  cases r with
  | error h => rfl
  | ok v =>
      show Comp.settle v T' = _
      rw [settle_like (hheld v rfl)]
      rfl

/-- What the second run of a body comes to. -/
theorem returns_settled {s S' : Store} {helpers stmts : List Stmt} {β : Pairing} {v w : Value} {span : Span}
    (hstart : s.frames = #[]) (henv : scene.env = Scope.body)
    (hhelpers : ∀ (c : Context) (rest : List Stmt),
      Eval.stmts c (helpers ++ rest) Scope.body s.opened = Eval.stmts c rest Scope.body T)
    (hrun : Reaches scene.run (fun m => Eval.stmts (scene.settled m) stmts scene.env T) (.ok (.return w)) S')
    (hlike : v.Like β w) :
    Reaches scene.run (fun m => (scene.settled m).runBody (.mk (helpers ++ stmts) span) s) (.ok w) S' := by
  have hbody : ∀ m, (scene.settled m).runBody (.mk (helpers ++ stmts) span) s =
      (Eval.stmts (scene.settled m) stmts scene.env T).bind fun x => x.value >>= Comp.settle := by
    intro m
    rw [Context.runBody_eq _ _ _ hstart, hhelpers, henv]
  simp only [hbody]
  refine hrun.bind (f := fun _ (x : Completion) => x.value >>= Comp.settle) ?_
  show Reaches scene.run (fun _ => Comp.settle w S') _ _
  rw [settle_like hlike]
  exact Reaches.done

end Scene

end FieldScript
