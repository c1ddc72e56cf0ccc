import FieldScript.Proofs.Settle.Scopes

/-!
# Every asynchronous call is awaited

The walk over a body is followed case by case, and each case says what its part of the settled tree is
like in every scope that has the local names of the walk.

## Strategy

* Expressions, patterns and all that stands in them are `Sound`. The only case that reads a name is a
  call, and what rendering takes for an asynchronous capability there, settling took for one.
* Statements `Pass`: they leave no declaration waiting and a `Flow` to what follows.
* Parameters that move into the body of their function are bound there under the same names.
* The declarations in front of a loop that come from a later declarator of its header are awaited only
  where the names of the earlier ones are visible, which is what a tolerant view is about. If no later
  target has a computed key there are none of them.
-/

namespace FieldScript.Awaited

open Settle (Walk State Visited awaited thunk returning joinAll startsAsync inPlace lazily asObject)
open Settle.Walk (Ensures)

variable {v : View} {s s' : State} {l g : Locals} {F : Locals → Stmt → Prop}

/-- The shape that each node of a body must have for a view. -/
def View.admits (v : View) (n : Node) : Bool := n.namesMembers && (v.tolerant || n.keylessHeader)

/-! ## Positions -/

theorem inPlace_sound {visited : Visited}
    (h : Sound v F visited fun r g => expr v g r.2 r.1 = true) :
    Sound v F (inPlace visited) fun e g => expr v g false e = true := by
  intro s
  refine Settle.inPlace_ensures (h s) ?_ ?_
  · intro e s' hv
    exact ⟨hv.locals, hv.hoisted, hv.holds⟩
  · intro e s' hv
    exact hv

theorem front_temporaryStmt {e : Expr} {n : Nat} (h : ∀ g, l.Sub g → expr v g true e = true) :
    Front v l (Settle.temporaryStmt n e) := by
  refine ⟨isTemporaryName_temporaryName n, fun g hg => ?_⟩
  have hawaited : expr v g false (awaited e) = true := h g hg
  simp only [Settle.temporaryStmt, Settle.declareStmt, statement, declarators, pattern, optional,
    hawaited, Bool.and_true]

theorem asObject_sound {visited : Visited}
    (h : Sound v (Front v) visited fun r g => expr v g r.2 r.1 = true) :
    Sound v (Front v) (asObject visited) fun e g => expr v g false e = true := by
  intro s
  refine Settle.asObject_ensures (h s) ?_ ?_
  · intro e s' hv
    obtain ⟨new, hnew, hF⟩ := hv.hoisted
    refine ⟨hv.locals, ⟨new ++ [Settle.temporaryStmt s'.temporaries e], ?_, ?_⟩, fun g _ => ?_⟩
    · simp only [hnew, List.append_assoc]
    · intro d hd
      rcases List.mem_append.1 hd with hd | hd
      · exact hF d hd
      · rw [List.mem_singleton.1 hd]
        exact front_temporaryStmt hv.holds
    · simp only [expr]
  · intro e s' hv
    exact hv

/-- Declarations in front of an expression may stand in a function of their own. -/
theorem expr_thunk {decls : List Stmt} {e : Expr} (hdecls : ∀ d ∈ decls, Front v l d)
    (he : ∀ g, l.Sub g → expr v g false e = true) (hg : l.Sub g) (underAwait : Bool) :
    expr v g underAwait (thunk decls e) = true := by
  have hlast : Flow v l [returning e] l :=
    Flow.single (fun g hg => by simp only [returning, statement, optional, he g hg])
      fun g hg => hg.trans (sub_behind g _)
  have hbody : statements v (g.push.declareAll []).push (decls ++ [returning e]) = true :=
    ((Flow.fronts hdecls).append hlast).statements_eq hg.push_right.push_right
  simp only [thunk, awaited, expr, items, params, arrowBody, block, Pattern.boundNamesOf, hbody,
    Bool.true_or, Bool.and_true]

theorem lazily_sound {visited : Visited}
    (h : Sound v (Front v) visited fun r g => expr v g r.2 r.1 = true) :
    Sound v F (lazily visited) fun e g => expr v g false e = true := by
  intro s
  refine Settle.lazily_ensures (inPlace_sound h { s with hoisted := [] }) ?_ ?_
  · intro e s' hv _
    exact ⟨hv.locals, ⟨[], by simp⟩, hv.holds⟩
  · intro e s' hv _
    obtain ⟨new, hnew, hF⟩ := hv.hoisted
    rw [List.nil_append] at hnew
    rw [hnew]
    exact ⟨hv.locals, ⟨[], by simp⟩, fun g hg => expr_thunk hF hv.holds hg false⟩

/-! ## Statements -/

/-- What visiting a statement leaves. -/
structure Passes (v : View) (s s' : State) (outs : List Stmt) : Prop where
  scope : s'.locals.pop = s.locals.pop
  hoisted : s'.hoisted = s.hoisted
  flow : Flow v s.locals outs s'.locals

theorem placed_passes {step : Walk Stmt}
    (h : Sound v (Front v) step fun stmt g => statement v g stmt = true) (s : State) :
    Ensures (Settle.placed step) v.walk s fun outs s' => Passes v s s' outs := by
  refine Settle.placed_ensures ((h { s with hoisted := [] }).mono fun stmt s' hv => ?_)
  obtain ⟨new, hnew, hF⟩ := hv.hoisted
  have hlocals : s'.locals = s.locals := hv.locals
  rw [List.nil_append] at hnew
  refine ⟨congrArg Locals.pop hlocals, rfl, ?_⟩
  rw [hnew, hlocals]
  exact (Flow.fronts hF).append (Flow.single hv.holds fun g hg => hg.trans (sub_behind g stmt))

/-- A statement that needs nothing in front of it. -/
theorem passes_self {stmt : Stmt} (h : ∀ g, statement v g stmt = true) : Passes v s s [stmt] :=
  ⟨rfl, rfl, Flow.single (fun g _ => h g) fun g hg => hg.trans (sub_behind g stmt)⟩

/-- The body of a branch or loop is visited in a scope of its own. -/
theorem branch_sound (body : Stmt) {step : Walk (List Stmt)}
    (h : ∀ s, Ensures step v.walk s fun outs s' => Passes v s s' outs) :
    Sound v F (Settle.inScope step) fun outs g =>
      statement v g (Settle.bodyOf body outs) = true := by
  intro s
  refine Settle.inScope_ensures ((h _).mono fun outs s' hp => ?_)
  refine ⟨hp.scope, ⟨[], by simpa using hp.hoisted⟩, fun g hg => ?_⟩
  have hall : ∀ g, s.locals.Sub g → statements v g outs = true :=
    fun g hg => hp.flow.statements_eq hg.push_left
  show statement v g (Settle.bodyOf body outs) = true
  unfold Settle.bodyOf
  split
  · have hone := hall g hg
    simp only [statements, View.sight, headerNames, Bool.and_true] at hone
    split at hone <;> exact hone
  · simp only [statement, block, hall _ hg.push_right]

/-! ## Declarators -/

theorem declarators_append (xs ys : List Declarator) :
    declarators v g (xs ++ ys) =
      (declarators v g xs && declarators v (g.declareAll (declaredNames xs)) ys) := by
  induction xs generalizing g with
  | nil => simp only [List.nil_append, declarators, Bool.true_and]; rfl
  | cons d more ih =>
      obtain ⟨target, init, span⟩ := d
      have hnames : declaredNames (.mk target init span :: more) =
          target.boundNames ++ declaredNames more := rfl
      rw [List.cons_append, declarators, declarators, ih, hnames, Locals.declareAll_append]
      simp only [Bool.and_assoc]

/-- What visiting a declarator leaves. -/
structure Declares (v : View) (F : Locals → Stmt → Prop) (s s' : State) (d : Declarator) : Prop where
  scope : s'.locals.pop = s.locals.pop
  hoisted : ∃ new, s'.hoisted = s.hoisted ++ new ∧ ∀ x ∈ new, F s.locals x
  holds : ∀ g, s.locals.Sub g → declarators v g [d] = true
  names : s'.locals.Sub (s.locals.declareAll (declaredNames [d]))

/-- A name that is declared once more adds none. -/
theorem declarator_ensures (out : Settle.Outside) (target : Pattern) (init : Option Expr) (span : Span)
    (s : State) :
    Ensures (Settle.declarator target init span) out s fun d s' =>
      d = .mk target init span ∧ s'.hoisted = s.hoisted ∧ s'.locals.pop = s.locals.pop ∧
        s'.locals.Sub (s.locals.declareAll target.boundNames) := by
  have hplain : (s.locals.declareAll target.boundNames).pop = s.locals.pop :=
    Locals.pop_declareAll _ _
  unfold Settle.declarator
  refine Ensures.modify_bind ?_
  unfold Settle.noteFunction
  split
  · rename_i id e
    split
    · refine ⟨rfl, rfl, (Locals.pop_bind _ _ _).trans hplain, fun name hname => ?_⟩
      have hbound : (s.locals.declareAll (Pattern.boundNames (.ident id))).contains id.name = true := by
        simp [Pattern.boundNames, Locals.contains_declareAll]
      rcases Bool.or_eq_true_iff.1 ((Locals.contains_bind _ _ _ _).symm.trans hname) with h | h
      · rw [beq_iff_eq.1 h]
        exact hbound
      · exact h
    · exact ⟨rfl, rfl, hplain, Locals.Sub.refl _⟩
  · exact ⟨rfl, rfl, hplain, Locals.Sub.refl _⟩

theorem declares {visitTarget : Walk Pattern} {visitInit : Walk (Option Expr)} (span : Span)
    (htarget : Sound v F visitTarget fun p g => pattern v g p = true)
    (hinit : Sound v F visitInit fun e g => optional v g e = true) (s : State) :
    Ensures (do
      let target ← visitTarget
      let init ← visitInit
      Settle.declarator target init span) v.walk s fun d s' => Declares v F s s' d := by
  refine Ensures.bind (htarget s) fun target s₁ ht => Ensures.bind (hinit s₁) fun init s₂ hi => ?_
  refine (declarator_ensures v.walk target init span s₂).mono ?_
  rintro _ s' ⟨rfl, hhoisted, hscope, hnames⟩
  have hboth : Visits F s s₂ fun g => pattern v g target = true ∧ optional v g init = true :=
    ht.trans ⟨hi.locals, hi.hoisted, fun g hg hp => ⟨hp, hi.holds g hg⟩⟩
  rw [hboth.locals] at hscope hnames
  refine ⟨hscope, by rw [hhoisted]; exact hboth.hoisted, fun g hg => ?_, ?_⟩
  · obtain ⟨htarget, hinit⟩ := hboth.holds g hg
    simp only [declarators, htarget, hinit, Bool.and_true]
  · simpa [declaredNames] using hnames

/-- Declarators that wait for the rest of their statement, which starts with the names of `l` and
binds those of `l'`. -/
structure Waiting (v : View) (l : Locals) (waiting : List Declarator) (l' : Locals) : Prop where
  holds : ∀ g, l.Sub g → declarators v g waiting = true
  names : l'.Sub (l.declareAll (declaredNames waiting))

namespace Waiting

variable {waiting : List Declarator} {l' : Locals} {d : Declarator}

theorem nil (l : Locals) : Waiting v l [] l := ⟨fun _ _ => by simp only [declarators], Locals.Sub.refl l⟩

theorem snoc (h : Waiting v l waiting s.locals) (hd : Declares v F s s' d) :
    Waiting v l (waiting ++ [d]) s'.locals := by
  refine ⟨fun g hg => ?_, ?_⟩
  · rw [declarators_append, h.holds g hg, Bool.true_and]
    exact hd.holds _ (h.names.trans (hg.declareAll _))
  · have hsplit : declaredNames (waiting ++ [d]) = declaredNames waiting ++ declaredNames [d] := by
      simp [declaredNames]
    rw [hsplit, Locals.declareAll_append]
    exact hd.names.trans (h.names.declareAll _)

theorem flow (h : Waiting v l waiting l') (kind : DeclKind) (span : Span) :
    Flow v l [Settle.declareStmt kind waiting span] l' := by
  refine Flow.single (fun g hg => ?_) fun g hg => h.names.trans (hg.declareAll _)
  simp only [Settle.declareStmt, statement, h.holds g hg]

end Waiting

/-! ## Headers of loops -/

/-- A temporary that is awaited where the names of a header are visible, in a view that counts them as
visible in front of the loop. -/
def Late (v : View) (names : List String) (l : Locals) (d : Stmt) : Prop :=
  v.tolerant = true ∧ Front v (l.declareAll names) d

theorem Late.of_front {names : List String} {d : Stmt} (htolerant : v.tolerant = true)
    (h : Front v l d) : Late v names l d :=
  ⟨htolerant, h.mono ((Locals.Sub.refl l).declareAll_right names)⟩

theorem Late.of_sub {names names' : List String} {l' : Locals} {d : Stmt}
    (hsub : l'.Sub (l.declareAll names)) (h : Late v names' l' d) : Late v (names ++ names') l d := by
  refine ⟨h.1, h.2.mono ?_⟩
  rw [Locals.declareAll_append]
  exact hsub.declareAll names'

/-- What visiting the later declarators of a header leaves. -/
structure Heads (v : View) (s s' : State) (ds : List Declarator) : Prop where
  scope : s'.locals.pop = s.locals.pop
  hoisted : ∃ new, s'.hoisted = s.hoisted ++ new ∧
    ∀ d ∈ new, ds ≠ [] ∧ Late v (declaredNames ds.dropLast) s.locals d
  holds : ∀ g, s.locals.Sub g → declarators v g ds = true
  names : s'.locals.Sub (s.locals.declareAll (declaredNames ds))

/-- What visiting the first clause of a loop leaves. -/
structure Opens (v : View) (s s' : State) (init : ForInit) : Prop where
  scope : s'.locals.pop = s.locals.pop
  hoisted : ∃ new, s'.hoisted = s.hoisted ++ new ∧ ∀ d ∈ new, Front v s.locals d ∨
    ∃ kind ds span, init = .declare (.mk kind ds span) ∧
      Late v (declaredNames ds.dropLast) s.locals d
  holds : ∀ g, s.locals.Sub g → forInit v g init = true
  names : ∀ g, s.locals.Sub g → s'.locals.Sub (behindInit g init)

theorem Heads.nil : Heads v s s [] :=
  ⟨rfl, ⟨[], by simp⟩, fun _ _ => by simp only [declarators], Locals.Sub.refl _⟩

/-- What later declarators leave is awaited behind the one in front of them. -/
theorem Heads.late_cons {d : Declarator} {more : List Declarator} {l' : Locals} {x : Stmt}
    (hnames : l'.Sub (l.declareAll (declaredNames [d])))
    (h : more ≠ [] ∧ Late v (declaredNames more.dropLast) l' x) :
    Late v (declaredNames (d :: more).dropLast) l x := by
  have hsplit : declaredNames (d :: more).dropLast =
      declaredNames [d] ++ declaredNames more.dropLast := by
    rw [List.dropLast_cons_of_ne_nil h.1]
    simp [declaredNames]
  rw [hsplit]
  exact h.2.of_sub hnames

theorem Heads.holds_cons {s₁ : State} {d : Declarator} {more : List Declarator}
    (hd : Declares v F s s₁ d) (h : Heads v s₁ s' more) (hg : s.locals.Sub g) :
    declarators v g (d :: more) = true := by
  have happend := declarators_append (v := v) (g := g) [d] more
  rw [List.singleton_append] at happend
  rw [happend, hd.holds g hg, Bool.true_and]
  exact h.holds _ (hd.names.trans (hg.declareAll _))

theorem Heads.names_cons {s₁ : State} {d : Declarator} {more : List Declarator}
    (hd : Declares v F s s₁ d) (h : Heads v s₁ s' more) :
    s'.locals.Sub (s.locals.declareAll (declaredNames (d :: more))) := by
  have hsplit : declaredNames (d :: more) = declaredNames [d] ++ declaredNames more := by
    simp [declaredNames]
  rw [hsplit, Locals.declareAll_append]
  exact h.names.trans (hd.names.declareAll _)

theorem Heads.cons {s₁ : State} {d : Declarator} {more : List Declarator}
    (h : Heads v s₁ s' more)
    (hd : Declares v (fun l x => v.tolerant = true ∧ Front v l x) s s₁ d) :
    Heads v s s' (d :: more) := by
  obtain ⟨new, hnew, hfront⟩ := hd.hoisted
  obtain ⟨new', hnew', hlate⟩ := h.hoisted
  refine ⟨h.scope.trans hd.scope, ⟨new ++ new', ?_, fun x hx => ⟨by simp, ?_⟩⟩, fun g hg => ?_, ?_⟩
  · rw [hnew', hnew, List.append_assoc]
  · rcases List.mem_append.1 hx with hx | hx
    · exact Late.of_front (hfront x hx).1 (hfront x hx).2
    · exact Heads.late_cons hd.names (hlate x hx)
  · exact h.holds_cons hd hg
  · exact h.names_cons hd

/-- The first declarator of a header and the later ones. -/
theorem Heads.opens {s₁ : State} {d : Declarator} {more : List Declarator}
    (h : Heads v s₁ s' more) (hd : Declares v (Front v) s s₁ d) (kind : DeclKind) (span : Span) :
    Opens v s s' (.declare (.mk kind (d :: more) span)) := by
  obtain ⟨new, hnew, hfront⟩ := hd.hoisted
  obtain ⟨new', hnew', hlate⟩ := h.hoisted
  refine ⟨h.scope.trans hd.scope, ⟨new ++ new', ?_, fun x hx => ?_⟩, fun g hg => ?_, fun g hg => ?_⟩
  · rw [hnew', hnew, List.append_assoc]
  · rcases List.mem_append.1 hx with hx | hx
    · exact .inl (hfront x hx)
    · exact .inr ⟨kind, _, span, rfl, Heads.late_cons hd.names (hlate x hx)⟩
  · simp only [forInit, h.holds_cons hd hg]
  · exact (h.names_cons hd).trans (hg.declareAll _)

/-- Temporaries do not hide the header of the loop behind them. -/
theorem headerNames_append {new rest : List Stmt} (h : ∀ d ∈ new, d.isTemporary = true) :
    headerNames (new ++ rest) = headerNames rest := by
  induction new with
  | nil => rfl
  | cons d more ih =>
      have hd := h d List.mem_cons_self
      rw [← ih fun x hx => h x (List.mem_cons_of_mem d hx)]
      cases d with
      | declare decl span => simp only [List.cons_append, headerNames, hd, if_true]
      | _ => exact absurd hd (by simp [Stmt.isTemporary])

/-- A loop behind the temporaries that its first clause needs. -/
theorem Opens.flow {init : ForInit} {test update : Option Expr} {body : Stmt} {span : Span}
    {new : List Stmt}
    (hnew : ∀ d ∈ new, Front v l d ∨ ∃ kind ds span, init = .declare (.mk kind ds span) ∧
      Late v (declaredNames ds.dropLast) l d)
    (hloop : ∀ g, l.Sub g → statement v g (.for init test update body span) = true) :
    Flow v l (new ++ [Stmt.for init test update body span]) l := by
  induction new with
  | nil => exact Flow.single hloop fun g hg => hg.trans (sub_behind g _)
  | cons d more ih =>
      have hmore := ih fun x hx => hnew x (List.mem_cons_of_mem d hx)
      have htemp : ∀ x ∈ more, x.isTemporary = true := fun x hx => by
        rcases hnew x (List.mem_cons_of_mem d hx) with h | ⟨_, _, _, _, h⟩
        · exact h.1
        · exact h.2.1
      intro g hg rest hrest
      rw [List.cons_append, List.cons_append, statements, Bool.and_eq_true]
      refine ⟨?_, hmore _ (hg.trans (sub_behind g d)) rest hrest⟩
      rcases hnew d List.mem_cons_self with h | ⟨kind, ds, span', rfl, htolerant, hd⟩
      · exact h.2 _ (hg.trans (sub_sight g d _))
      · rw [View.sight, htolerant, hd.1, List.append_assoc, headerNames_append htemp]
        exact hd.2 _ (hg.declareAll _)

/-- A loop whose parts have been visited one after the other, in a scope of its own. -/
theorem loop_passes {visitInit : Walk ForInit} {visitTest visitUpdate : Walk (Option Expr)}
    {visitBody : Walk (List Stmt)} {body : Stmt} {span : Span}
    (hinit : ∀ s, Ensures visitInit v.walk s fun init s' => Opens v s s' init)
    (htest : Sound v Nothing visitTest fun e g => optional v g e = true)
    (hupdate : Sound v Nothing visitUpdate fun e g => optional v g e = true)
    (hbody : Sound v Nothing visitBody fun outs g => statement v g (Settle.bodyOf body outs) = true)
    (s : State) :
    Ensures (Settle.placed <| Settle.inScope do
      let init ← visitInit
      let test ← visitTest
      let update ← visitUpdate
      let out ← visitBody
      return .for init test update (Settle.bodyOf body out) span) v.walk s
        fun outs s' => Passes v s s' outs := by
  refine Settle.placed_ensures (Settle.inScope_ensures ?_)
  refine Ensures.bind (hinit _) fun init s₁ hopens => ?_
  have hparts : Sound v Nothing (do
      let test ← visitTest
      let update ← visitUpdate
      let out ← visitBody
      return Stmt.for init test update (Settle.bodyOf body out) span) fun stmt g =>
        ∃ test update body, stmt = .for init test update body span ∧ optional v g test = true ∧
          optional v g update = true ∧ statement v g body = true := by
    refine htest.bind fun test => hupdate.bind fun update => hbody.bind fun out => Sound.pure ?_
    intro g hbody hupdate htest
    exact ⟨test, update, _, rfl, htest, hupdate, hbody⟩
  refine (hparts s₁).mono fun stmt s₂ hv => ?_
  obtain ⟨new, hnew, hfronts⟩ := hopens.hoisted
  have hscope : s₂.locals.pop = s.locals := (congrArg Locals.pop hv.locals).trans hopens.scope
  refine ⟨congrArg Locals.pop hscope, rfl, ?_⟩
  obtain ⟨test, update, body', rfl, -⟩ := hv.holds s₁.locals (Locals.Sub.refl _)
  show Flow v s.locals (s₂.hoisted ++ [_]) s₂.locals.pop
  rw [hscope, hv.hoisted_eq, hnew, List.nil_append]
  refine Opens.flow (fun d hd => ?_) fun g hg => ?_
  · rcases hfronts d hd with h | ⟨kind, ds, dspan, hdecl, hlate⟩
    · exact .inl (h.mono (Locals.Sub.refl s.locals).push_left)
    · exact .inr ⟨kind, ds, dspan, hdecl, hlate.1,
        hlate.2.mono ((Locals.Sub.refl s.locals).push_left.declareAll _)⟩
  · have hpushed : s.locals.push.Sub g.push := hg.push_left.push_right
    obtain ⟨_, _, _, hsame, htest, hupdate, hbody⟩ := hv.holds _ (hopens.names g.push hpushed)
    cases hsame
    have hhead : forInit v g.push init = true := hopens.holds g.push hpushed
    simp only [statement, hhead, htest, hupdate, hbody, Bool.and_true]

/-! ## Parameters -/

/-- What a parameter leaves: either it stays, or a temporary takes its place and a declaration in the
body binds the same names. -/
inductive Binds (v : View) (s s' : State) (moved : Bool) : Pattern × List Stmt → Prop where
  | stays (p : Pattern) (hmoved : moved = false) (hlocals : s'.locals = s.locals.declareAll p.boundNames)
      (hholds : ∀ g, s.locals.Sub g → pattern v g p = true) : Binds v s s' moved (p, [])
  | moves (slot : Pattern) (decls : List Stmt) (hne : decls ≠ [])
      (hslot : ∀ g, pattern v g slot = true)
      (hscope : s'.locals.pop = s.locals.pop)
      (hflow : ∀ names, Flow v (s.locals.declareAll names) decls (s'.locals.declareAll names)) :
      Binds v s s' moved (slot, decls)

/-- The declaration that a parameter becomes is awaited where the parameter is, and binds its names. -/
theorem moveParam_ensures (v : View) (out : Settle.Outside) (p : Pattern) (s : State) :
    Ensures (Settle.moveParam p) out s fun r s' =>
      s'.locals = s.locals ∧ s'.hoisted = s.hoisted ∧ (∀ g, pattern v g r.1 = true) ∧
        (∀ g, pattern v g p = true → statement v g r.2 = true) ∧
          ∀ g, behind g r.2 = g.declareAll p.boundNames := by
  unfold Settle.moveParam
  refine Ensures.bind (M := fun _ s' => s'.locals = s.locals ∧ s'.hoisted = s.hoisted)
    (Settle.temporary_ensures ⟨rfl, rfl⟩) ?_
  rintro name s' ⟨hlocals, hhoisted⟩
  -- a default moves along with its target, and a rest pattern leaves its dots behind
  cases p with
  | rest inner =>
      cases inner <;> refine Ensures.pure ⟨hlocals, hhoisted, fun g => ?_, fun g hp => ?_, fun g => ?_⟩
      all_goals simp_all [Settle.declareStmt, statement, declarators, optional, expr, pattern, behind,
        declaredNames, Pattern.boundNames]
  | _ =>
      refine Ensures.pure ⟨hlocals, hhoisted, fun g => ?_, fun g hp => ?_, fun g => ?_⟩
      all_goals simp_all [Settle.declareStmt, statement, declarators, optional, expr, pattern, behind,
        declaredNames, Pattern.boundNames]

theorem param_ensures {visited : Walk Pattern}
    (h : Sound v (Front v) visited fun p g => pattern v g p = true) (moved : Bool) (s : State) :
    Ensures (Settle.param visited moved) v.walk s fun r s' =>
      s'.hoisted = s.hoisted ∧ Binds v s s' moved r := by
  unfold Settle.param
  refine Ensures.bind (M := fun r s' => s'.hoisted = s.hoisted ∧ s'.locals = s.locals ∧
    (∀ d ∈ r.1.2, Front v s.locals d) ∧ ∀ g, s.locals.Sub g → pattern v g r.1.1 = true)
    (Settle.framed_ensures (Settle.collecting_ensures ((h _).mono fun p s' hv => ?_))) ?_
  · obtain ⟨new, hnew, hF⟩ := hv.hoisted
    rw [List.nil_append] at hnew
    refine ⟨rfl, hv.locals, ?_, hv.holds⟩
    simpa only [hnew] using hF
  rintro ⟨⟨p, decls⟩, flagged⟩ s₁ ⟨hhoisted, hlocals, hfronts, hholds⟩
  refine Settle.markAwait_if_ensures fun awaits => ?_
  generalize hs₂ : ({ s₁ with awaits := awaits } : State) = s₂
  have hhoisted : s₂.hoisted = s.hoisted := by rw [← hs₂]; exact hhoisted
  have hlocals : s₂.locals = s.locals := by rw [← hs₂]; exact hlocals
  refine Ensures.ite (fun _ => ?_) fun hstays => ?_
  · refine Ensures.bind (moveParam_ensures v v.walk p s₂) ?_
    rintro ⟨slot, decl⟩ s₃ ⟨hlocals', hhoisted', hslot, hdecl, hnames⟩
    have hafter : s₃.locals = s.locals := hlocals'.trans hlocals
    refine ⟨hhoisted'.trans hhoisted, .moves slot (decls ++ [decl]) (by simp) hslot ?_ fun names => ?_⟩
    · show (s₃.locals.declareAll p.boundNames).pop = s.locals.pop
      rw [Locals.pop_declareAll, hafter]
    · show Flow v _ _ ((s₃.locals.declareAll p.boundNames).declareAll names)
      rw [hafter]
      have hwider : s.locals.Sub (s.locals.declareAll names) :=
        (Locals.Sub.refl _).declareAll_right names
      refine (Flow.fronts fun d hd => (hfronts d hd).mono hwider).append (Flow.single ?_ ?_)
      · intro g hg
        exact hdecl g (hholds g (hwider.trans hg))
      · intro g hg
        rw [hnames g]
        exact (Locals.Sub.declareAll_comm _ _ _).trans (hg.declareAll _)
  · refine ⟨hhoisted, .stays p ?_ (congrArg (·.declareAll p.boundNames) hlocals) hholds⟩
    cases moved with
    | false => rfl
    | true => exact absurd (Bool.or_true _) hstays

/-- What a list of parameters leaves, given whether one in front of them has moved. -/
structure Takes (v : View) (s s' : State) (moved : Bool) (r : List Pattern × List Stmt) : Prop where
  scope : s'.locals.pop = s.locals.pop
  hoisted : s'.hoisted = s.hoisted
  holds : ∀ g, moved = true ∨ s.locals.Sub g → params v g r.1 = true
  flow : Flow v (s.locals.declareAll (Pattern.boundNamesOf r.1)) r.2 s'.locals
  names : r.2 = [] → s'.locals.Sub (s.locals.declareAll (Pattern.boundNamesOf r.1))

theorem Takes.nil {moved : Bool} : Takes v s s moved ([], []) :=
  ⟨rfl, rfl, fun _ _ => by simp only [params], Flow.nil (Locals.Sub.refl _), fun _ => Locals.Sub.refl _⟩

/-- A parameter in front of others. Once it has moved, so have all behind it, and what is left of them
are names. -/
theorem Takes.cons {s₁ : State} {moved : Bool} {p : Pattern} {ps : List Pattern}
    {decls others : List Stmt} (hhoisted : s₁.hoisted = s.hoisted)
    (hp : Binds v s s₁ moved (p, decls)) (h : Takes v s₁ s' (moved || !decls.isEmpty) (ps, others)) :
    Takes v s s' moved (p :: ps, decls ++ others) := by
  have hsplit : ∀ l : Locals, l.declareAll (Pattern.boundNamesOf (p :: ps)) =
      (l.declareAll p.boundNames).declareAll (Pattern.boundNamesOf ps) :=
    fun l => by rw [Pattern.boundNamesOf, Locals.declareAll_append]
  cases hp with
  | stays _ hmoved hlocals hholds =>
      subst hmoved
      refine ⟨?_, h.hoisted.trans hhoisted, fun g hg => ?_, ?_, fun hnil => ?_⟩
      · rw [h.scope, hlocals, Locals.pop_declareAll]
      · have hsub : s.locals.Sub g := hg.resolve_left Bool.false_ne_true
        have hmore : params v (g.declareAll p.boundNames) ps = true :=
          h.holds _ (.inr (hlocals ▸ hsub.declareAll _))
        simp only [params, hholds g hsub, hmore, Bool.and_true]
      · rw [hsplit, ← hlocals]
        exact h.flow
      · rw [hsplit, ← hlocals]
        exact h.names hnil
  | moves _ _ hne hslot hscope hflow =>
      have hrest : (moved || !decls.isEmpty) = true := by
        cases decls with
        | nil => exact absurd rfl hne
        | cons d more => exact Bool.or_true moved
      refine ⟨h.scope.trans hscope, h.hoisted.trans hhoisted, fun g _ => ?_, ?_, fun hnil => ?_⟩
      · simp only [params, hslot g, h.holds _ (.inl hrest), Bool.and_true]
      · rw [hsplit]
        refine ((hflow (Pattern.boundNamesOf ps)).mono ?_ (Locals.Sub.refl _)).append h.flow
        exact ((Locals.Sub.refl _).declareAll_right _).declareAll _
      · exact absurd (List.append_eq_nil_iff.1 hnil).1 hne

/-- Whether the calls of a body are awaited, with no scope of its own for a block. -/
def bodyHolds (v : View) (g : Locals) : ArrowBody → Prop
  | .expr e => expr v g false e = true
  | .block b => statements v g b.stmts = true

theorem exprBody_sound {visited : Visited} {bare : Bool} {span : Span}
    (h : Sound v (Front v) visited fun r g => expr v g r.2 r.1 = true) :
    Sound v F (Settle.exprBody bare visited span) fun body g => bodyHolds v g body := by
  intro s
  unfold Settle.exprBody
  refine Ensures.bind (M := fun r s' => s'.hoisted = s.hoisted ∧ s'.locals = s.locals ∧
    (∀ d ∈ r.2, Front v s.locals d) ∧ ∀ g, s.locals.Sub g → expr v g false r.1 = true)
    (Settle.collecting_ensures ((inPlace_sound h _).mono fun e s' hv => ?_)) ?_
  · obtain ⟨new, hnew, hF⟩ := hv.hoisted
    rw [List.nil_append] at hnew
    refine ⟨rfl, hv.locals, ?_, hv.holds⟩
    simpa only [hnew] using hF
  rintro ⟨e, decls⟩ s₁ ⟨hhoisted, hlocals, hfronts, hholds⟩
  refine Ensures.ite (fun _ => ?_) fun _ => ?_
  · refine Ensures.pure ⟨hlocals, ⟨[], by simpa using hhoisted⟩, fun g hg => ?_⟩
    have hlast : Flow v s.locals [returning e] s.locals :=
      Flow.single (fun g hg => by simp only [returning, statement, optional, hholds g hg])
        fun g hg => hg.trans (sub_behind g _)
    exact ((Flow.fronts hfronts).append hlast).statements_eq hg
  · exact Ensures.pure ⟨hlocals, ⟨[], by simpa using hhoisted⟩, hholds⟩

/-- A function whose parameters and body have been visited one after the other. -/
theorem arrow_holds {ps : List Pattern} {moved : List Stmt} {body : ArrowBody} {span : Span}
    (hps : Takes v s s' false (ps, moved)) (hbody : ∀ g, s'.locals.Sub g → bodyHolds v g body)
    (hg : s.locals.Sub g) :
    params v g ps = true ∧
      arrowBody v (g.declareAll (Pattern.boundNamesOf ps)) (Settle.withMoved moved body span) = true := by
  refine ⟨hps.holds g (.inr hg), ?_⟩
  have hinner := hg.declareAll (Pattern.boundNamesOf ps)
  have hmoved : ∀ rest, (∀ g', s'.locals.Sub g' → statements v g' rest = true) →
      statements v (g.declareAll (Pattern.boundNamesOf ps)).push (moved ++ rest) = true :=
    fun rest hrest => hps.flow _ hinner.push_right rest hrest
  unfold Settle.withMoved
  cases moved with
  | nil =>
      have houter := hbody _ ((hps.names rfl).trans hinner)
      cases body with
      | expr e => exact houter
      | block b =>
          obtain ⟨stmts, bspan⟩ := b
          exact hbody _ ((hps.names rfl).trans hinner.push_right)
  | cons d more =>
      cases body with
      | expr e =>
          refine hmoved [returning e] fun g' hg' => ?_
          have he : expr v (v.sight g' (returning e) []) false e = true :=
            hbody _ (hg'.trans (sub_sight g' _ _))
          rw [statements, statements, Bool.and_true]
          exact he
      | block b => exact hmoved b.stmts hbody

end FieldScript.Awaited
