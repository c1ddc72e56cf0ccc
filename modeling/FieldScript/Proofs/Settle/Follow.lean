import FieldScript.Proofs.Eval.Assignments
import FieldScript.Proofs.Settle.Walk
import FieldScript.Proofs.Syntax.Nodes

/-!
# Settled trees follow the trees that were written

In a body without arrow functions whose calls are all calls of capabilities, every tree agrees with what
settling makes of it (`Scene.Agrees`). The induction is over the walk: a step of it leaves a tree,
declarations in front, and numbers of temporaries, and these are what the agreement is about.

* `Node.IsDirect`: what such a body consists of.
* `Follow`: a step of the walk whose result agrees with the tree that was visited.
* `expr_follow` and its companions: one case for each kind of tree.
-/

namespace FieldScript

/-- A node of a body without arrow functions, with direct calls of capabilities. Its names are known, and the
target of an assignment is a member access if it is a member at all. -/
def Node.IsDirect (capabilities : Capabilities) (known : String → Prop) : Node → Prop
  | .expr (.identifier name _) => known name
  | .expr (.call callee _ _ _) => ∃ name span, callee = .identifier name span ∧ capabilities.contains name = true
  | .expr (.arrow _ _ _ _) => False
  | .pattern (.ident id) => known id.name
  | .pattern (.member e) => ∃ o k optional span, e = .member o k optional span
  | _ => True

/-- Two runs of a body, and the names that occur in it. -/
structure Comparison where
  scene : Scene
  /-- Whether the calls of the two runs are compared. -/
  counts : Bool
  lawful : scene.Lawful counts
  known : String → Prop
  ordinary : ∀ {name : String}, known name → Ordinary name

namespace Comparison

variable (cmp : Comparison)

/-- What settling sees of the surroundings. -/
def outside : Settle.Outside := ⟨cmp.scene.setting.capabilities, cmp.scene.setting.args⟩

/-- The capabilities. -/
abbrev caps : Capabilities := cmp.scene.setting.capabilities

/-- All nodes of a tree may occur in the body. -/
def Admits (nodes : List Node) : Prop := ∀ node ∈ nodes, node.IsDirect cmp.caps cmp.known

end Comparison

namespace Settle

open Walk (Ensures)

variable {cmp : Comparison} {α β : Type} {s s₁ s' : State} {D D₁ D₂ : List Stmt}

/-! ## Steps -/

/-- What a step of the walk does to its state. -/
structure Walked (cmp : Comparison) (s s' : State) (D : List Stmt) : Prop where
  locals : s'.locals = s.locals
  hoisted : s'.hoisted = s.hoisted ++ D
  noted : ∀ name ∈ s'.helpers, name ∈ s.helpers ∨ cmp.known name ∧ cmp.caps.contains name = false ∧
    cmp.scene.setting.args.contains name = false

theorem Walked.refl (s : State) : Walked cmp s s [] := ⟨rfl, by simp, fun _ h => .inl h⟩

theorem Walked.trans (h : Walked cmp s s₁ D₁) (h' : Walked cmp s₁ s' D₂) : Walked cmp s s' (D₁ ++ D₂) where
  locals := h'.locals.trans h.locals
  hoisted := by rw [h'.hoisted, h.hoisted, List.append_assoc]
  noted name hname := (h'.noted name hname).elim (h.noted name) .inr

/-- A step of the walk outside of all functions, whose result is in order with respect to the numbers of
temporaries before and behind it and the new declarations. -/
def Follow (cmp : Comparison) (step : Walk α) (ok : α → Nat → Nat → List Stmt → Prop) : Prop :=
  ∀ s, (∀ name, s.locals.find? name = none) → Ensures step cmp.outside s fun a s' =>
    ∃ D, Walked cmp s s' D ∧ ok a s.temporaries s'.temporaries D

/-- A step makes no temporaries and leaves no declarations. -/
abbrev Nothing (n n' : Nat) (D : List Stmt) : Prop := n = n' ∧ D = []

namespace Follow

variable {x : Walk α} {f : α → Walk β} {g : α → β} {ok ok' : α → Nat → Nat → List Stmt → Prop}
  {ok₂ : β → Nat → Nat → List Stmt → Prop}

theorem pure {a : α} (h : ∀ n, ok a n n []) : Follow cmp (Pure.pure a) ok :=
  fun s _ => ⟨[], Walked.refl s, h _⟩

theorem bind (hx : Follow cmp x ok)
    (hf : ∀ a, Follow cmp (f a) fun b n₁ n₂ D₂ => ∀ n D₁, ok a n n₁ D₁ → ok₂ b n n₂ (D₁ ++ D₂)) :
    Follow cmp (x >>= f) ok₂ := by
  intro s hlocals
  refine Ensures.bind (hx s hlocals) ?_
  rintro a s₁ ⟨D₁, hwalked, hok⟩
  refine (hf a s₁ (by rwa [hwalked.locals])).mono ?_
  rintro b s₂ ⟨D₂, hwalked', hok'⟩
  exact ⟨D₁ ++ D₂, hwalked.trans hwalked', hok' _ _ hok⟩

theorem mono (hx : Follow cmp x ok) (h : ∀ a n n' D, ok a n n' D → ok' a n n' D) : Follow cmp x ok' := by
  intro s hlocals
  refine (hx s hlocals).mono ?_
  rintro a s' ⟨D, hwalked, hok⟩
  exact ⟨D, hwalked, h a _ _ D hok⟩

/-- A tree that is put together from a visited one. -/
theorem map (hx : Follow cmp x ok) (h : ∀ a n n' D, ok a n n' D → ok₂ (g a) n n' D) :
    Follow cmp (x >>= fun a => Pure.pure (g a)) ok₂ := by
  intro s hlocals
  refine Ensures.bind (hx s hlocals) ?_
  rintro a s' ⟨D, hwalked, hok⟩
  exact ⟨D, hwalked, h a _ _ D hok⟩

/-- A step that leaves no declarations in front of another. -/
theorem skip {P : α → Prop} (hx : Follow cmp x fun a n n' D => P a ∧ Nothing n n' D)
    (hf : ∀ a, P a → Follow cmp (f a) ok₂) : Follow cmp (x >>= f) ok₂ := by
  intro s hlocals
  refine Ensures.bind (hx s hlocals) ?_
  rintro a s₁ ⟨_, hwalked, ha, htemporaries, rfl⟩
  refine (hf a ha s₁ (by rwa [hwalked.locals])).mono ?_
  rintro b s₂ ⟨D, hwalked', hok⟩
  rw [htemporaries]
  exact ⟨D, hwalked.trans hwalked', hok⟩

/-- A fact about the result that has nothing to do with declarations. -/
theorem and_ensures {P : α → Prop} (hx : Follow cmp x ok) (hP : ∀ s, Ensures x cmp.outside s fun a _ => P a) :
    Follow cmp x fun a n n' D => ok a n n' D ∧ P a := by
  intro s hlocals
  obtain ⟨D, hwalked, hok⟩ := hx s hlocals
  exact ⟨D, hwalked, hok, hP s⟩

end Follow

/-! ## Kinds of trees -/

/-- Visiting an expression keeps its kind. -/
theorem expr_kind (e : Expr) (out : Outside) (s : State) :
    Ensures (expr e) out s fun r _ => r.1.ctorIdx = e.ctorIdx := by
  cases e with
  | call callee args optional span =>
      unfold expr
      refine Ensures.skip fun capability s' => Ensures.skip fun callee s' => Ensures.skip fun args s' => ?_
      exact Ensures.ite (fun _ => rfl) fun _ => rfl
  | sequence es span =>
      unfold expr
      split
      · exact rfl
      · exact Ensures.skip fun e s' => Ensures.skip fun more s' => rfl
  | literal lit span => unfold expr; exact rfl
  | this span => unfold expr; exact rfl
  | function fn => unfold expr; exact rfl
  | identifier name span => unfold expr; exact Ensures.skip fun _ _ => rfl
  | template parts es span => unfold expr; exact Ensures.skip fun _ _ => rfl
  | array es span => unfold expr; exact Ensures.skip fun _ _ => rfl
  | object ps span => unfold expr; exact Ensures.skip fun _ _ => rfl
  | arrow ps body isAsync span => unfold expr; exact Ensures.skip fun _ _ => rfl
  | unary op e span => unfold expr; exact Ensures.skip fun _ _ => rfl
  | update op before target span => unfold expr; exact Ensures.skip fun _ _ => rfl
  | await e span => unfold expr; exact Ensures.skip fun _ _ => Ensures.skip fun _ _ => rfl
  | member object k optional span => unfold expr; exact Ensures.skip fun _ _ => Ensures.skip fun _ _ => rfl
  | binary op left right span => unfold expr; exact Ensures.skip fun _ _ => Ensures.skip fun _ _ => rfl
  | logical op left right span => unfold expr; exact Ensures.skip fun _ _ => Ensures.skip fun _ _ => rfl
  | assign op target value span => unfold expr; exact Ensures.skip fun _ _ => Ensures.skip fun _ _ => rfl
  | conditional test yes no span =>
      unfold expr
      exact Ensures.skip fun _ _ => Ensures.skip fun _ _ => Ensures.skip fun _ _ => rfl

/-- In a position whose value is used at once, an expression keeps its kind or gets an `await`. -/
theorem inPlace_kind (e : Expr) (out : Outside) (s : State) :
    Ensures (inPlace (expr e)) out s fun e' _ => e'.ctorIdx = e.ctorIdx ∨ ∃ arg, e' = awaited arg :=
  inPlace_ensures (expr_kind e out s) (fun e _ _ => .inr ⟨e, rfl⟩) fun _ _ h => .inl h

/-! ## Positions -/

variable {scene : Scene} {shape : Shape} {e o : Expr} {k : Key}

/-- What has become of an expression, with an `await` if its value is pending. -/
def inForm (r : Expr × Bool) : Expr := if r.2 then awaited r.1 else r.1

/-- The result of visiting an expression. -/
def FollowsExpr (cmp : Comparison) (e : Expr) (r : Expr × Bool) (n n' : Nat) (D : List Stmt) : Prop :=
  cmp.scene.Chains n n' (e.shape cmp.caps cmp.counts) D e (inForm r) ∧ r.2 = e.isPending cmp.caps

/-- The result of visiting an expression whose value is used at once. -/
abbrev FollowsValue (cmp : Comparison) (e e' : Expr) (n n' : Nat) (D : List Stmt) : Prop :=
  cmp.scene.Yields n n' (e.shape cmp.caps cmp.counts) D e e'

theorem Walked.awaiting (h : Walked cmp s s' D) (awaits : Bool) : Walked cmp s { s' with awaits := awaits } D :=
  ⟨h.locals, h.hoisted, h.noted⟩

theorem inPlace_follow (h : Follow cmp (expr e) (FollowsExpr cmp e)) :
    Follow cmp (inPlace (expr e)) (FollowsValue cmp e) := by
  intro s hlocals
  refine inPlace_ensures (h s hlocals) ?_ ?_
  · rintro e' s' ⟨D, hwalked, hchains, -⟩
    exact ⟨D, hwalked.awaiting true, hchains.yields⟩
  · rintro e' s' ⟨D, hwalked, hchains, -⟩
    exact ⟨D, hwalked, hchains.yields⟩

/-- The object of a member access. -/
theorem asObject_follow (h : Follow cmp (expr o) (FollowsExpr cmp o))
    (hdirect : (Node.expr o).IsDirect cmp.caps cmp.known) :
    Follow cmp (asObject (expr o)) fun o' n n' D =>
      cmp.scene.Chains n n' ((o.shape cmp.caps cmp.counts).object (o.isPending cmp.caps)) D o o' := by
  intro s hlocals
  refine asObject_ensures (h s hlocals) ?_ ?_
  · rintro o' s' ⟨D, hwalked, hchains, hpending⟩
    refine ⟨D ++ [temporaryStmt s'.temporaries o'], ⟨hwalked.locals, ?_, hwalked.noted⟩, ?_⟩
    · show s'.hoisted ++ _ = _
      rw [hwalked.hoisted, List.append_assoc]
    · rw [← hpending]
      refine hchains.move ?_ o'.span
      cases o with
      | call callee args optional span =>
          obtain ⟨name, ispan, rfl, hcap⟩ := hdirect
          exact Scene.call_valued cmp.lawful hcap args optional ispan span
      | _ => cases hpending
  · rintro o' s' ⟨D, hwalked, hchains, hpending⟩
    rw [← hpending]
    exact ⟨D, hwalked, hchains⟩

/-- A position that may not be reached. -/
theorem lazily_follow (h : Follow cmp (expr e) (FollowsExpr cmp e)) :
    Follow cmp (lazily (expr e)) fun e' n n' D =>
      D = [] ∧ cmp.scene.Yields n n' ((e.shape cmp.caps cmp.counts).kept cmp.counts) [] e e' := by
  intro s hlocals
  refine lazily_ensures (inPlace_follow h { s with hoisted := [] } hlocals) ?_ ?_
  · rintro e' s' ⟨D, hwalked, hyields⟩ hnone
    have hD : D = [] := hwalked.hoisted.symm.trans hnone
    subst hD
    exact ⟨[], ⟨hwalked.locals, by simp, hwalked.noted⟩, rfl, hyields.keep cmp.lawful⟩
  · rintro e' s' ⟨D, hwalked, hyields⟩ hsome
    have hD : s'.hoisted = D := hwalked.hoisted
    have hempty : D.isEmpty = false := by
      rw [← hD]
      cases hcases : s'.hoisted with
      | nil => exact absurd hcases hsome
      | cons d more => rfl
    refine ⟨[], ⟨hwalked.locals, by simp, hwalked.noted⟩, rfl, ?_⟩
    have hkeep := hyields.keep cmp.lawful
    rw [hempty] at hkeep
    rw [hD]
    exact hkeep

/-! ## Single trees -/

section

variable {args : List Item} {es more : List Expr}

/-- A name is noted at most. -/
theorem noteName_follow {name : String} (hname : cmp.known name) :
    Follow cmp (noteName name) fun _ => Nothing := by
  intro s _
  unfold noteName
  refine Ensures.bind (M := fun o s' => cmp.outside = o ∧ s = s') ⟨rfl, rfl⟩ ?_
  rintro _ _ ⟨rfl, rfl⟩
  refine Ensures.bind (M := fun t s' => s = t ∧ s = s') ⟨rfl, rfl⟩ ?_
  rintro _ _ ⟨rfl, rfl⟩
  refine Ensures.ite (fun hnoted => ?_) fun _ => ⟨[], Walked.refl s, rfl, rfl⟩
  simp only [Bool.and_eq_true, Bool.not_eq_true'] at hnoted
  obtain ⟨⟨⟨⟨-, -⟩, hcap⟩, harg⟩, -⟩ := hnoted
  refine ⟨[], ⟨rfl, (List.append_nil _).symm, fun other hother => ?_⟩, rfl, rfl⟩
  rcases List.mem_append.1 hother with hother | hother
  · exact .inl hother
  · rw [List.mem_singleton.1 hother]
    exact .inr ⟨hname, hcap, harg⟩

theorem identifier_follow {name : String} (hname : cmp.known name) (span : Span) :
    Follow cmp (expr (.identifier name span)) fun r n n' D =>
      r = (.identifier name span, false) ∧ Nothing n n' D := by
  unfold expr
  exact (noteName_follow hname).map fun _ _ _ _ hnothing => ⟨rfl, hnothing⟩

/-- The callee of a call of a capability. -/
theorem callee_follow {name : String} (hname : cmp.known name) (span : Span) :
    Follow cmp (inPlace (expr (.identifier name span))) fun e' n n' D =>
      e' = .identifier name span ∧ Nothing n n' D := by
  intro s hlocals
  refine inPlace_ensures (identifier_follow hname span s hlocals) ?_ ?_
  · rintro e' s' ⟨D, -, hr, -⟩
    cases hr
  · rintro e' s' ⟨D, hwalked, hr, hnothing⟩
    cases hr
    exact ⟨D, hwalked, rfl, hnothing⟩

theorem callsAsync_follow (name : String) (span : Span) :
    Follow cmp (callsAsync (.identifier name span)) fun async n n' D =>
      async = cmp.caps.isAsync name ∧ Nothing n n' D := by
  intro s hlocals
  refine callsAsync_ensures ⟨[], Walked.refl s, ?_, rfl, rfl⟩
  simp [startsAsync, Locals.contains, Locals.isAsyncFunction, hlocals, Comparison.outside]

/-- Elements and arguments that are no functions. -/
def FollowsItems (cmp : Comparison) (items items' : List Item) (n n' : Nat) (D : List Stmt) : Prop :=
  cmp.scene.Elements n n' (shapeOfItems cmp.caps cmp.counts items) D items items' ∧
    ∀ e, .expr e ∈ items' → isAsyncArrow e = false

theorem isAsyncArrow_eq_false {e' : Expr} (hdirect : (Node.expr e).IsDirect cmp.caps cmp.known)
    (h : e'.ctorIdx = e.ctorIdx ∨ ∃ arg, e' = awaited arg) : isAsyncArrow e' = false := by
  rcases h with h | ⟨arg, rfl⟩
  · cases e' with
    | arrow ps body isAsync span =>
        cases e with
        | arrow ps' body' isAsync' span' => exact hdirect.elim
        | _ => cases h
    | _ => rfl
  · rfl

theorem call_follow {name : String} (hname : cmp.known name) (hcap : cmp.caps.contains name = true)
    (hargs : Follow cmp (items args) (FollowsItems cmp args)) (optional : Bool) (ispan span : Span) :
    Follow cmp (expr (.call (.identifier name ispan) args optional span))
      (FollowsExpr cmp (.call (.identifier name ispan) args optional span)) := by
  unfold expr
  refine (callsAsync_follow name ispan).skip ?_
  rintro _ rfl
  refine (callee_follow hname ispan).skip ?_
  rintro _ rfl
  have hmap : isMap (.identifier name ispan) = false := rfl
  have hfunction : isAsyncArrow (.identifier name ispan) = false := rfl
  simp only [hmap, hfunction, Bool.false_and, Bool.false_eq_true, if_false, Bool.or_false]
  refine hargs.map fun args' n n' D hfollows => ?_
  have hcallback : ∀ p : Item → Bool, (∀ e, p (.expr e) = isAsyncArrow e) → (∀ e, p (.spread e) = false) →
      p .hole = false → args'.any p = false := by
    intro p hexpr hspread hhole
    rw [List.any_eq_false]
    intro item hitem
    cases item with
    | expr e => simp [hexpr, hfollows.2 e hitem]
    | spread e => simp [hspread]
    | hole => simp [hhole]
  have hchains : cmp.scene.Chains n n' _ D _ (if cmp.caps.isAsync name then _ else _) :=
    Scene.Chains.call cmp.lawful (cmp.ordinary hname) hcap id hfollows.1 optional ispan span
  have hpending : FollowsExpr cmp (.call (.identifier name ispan) args optional span)
      (.call (.identifier name ispan) args' optional span, cmp.caps.isAsync name || false) n n' D := by
    rw [Bool.or_false]
    exact ⟨hchains, rfl⟩
  rw [hcallback _ (fun _ => rfl) (fun _ => rfl) rfl]
  exact hpending

/-- The result of visiting a key. -/
abbrev FollowsKey (cmp : Comparison) (k k' : Key) (n n' : Nat) (D : List Stmt) : Prop :=
  cmp.scene.Names n n' (k.shape cmp.caps cmp.counts) D k k'

/-- A member access and its parts. -/
def FollowsMember (cmp : Comparison) (o : Expr) (k : Key) (optional : Bool) (span : Span) (e' : Expr) (n n' : Nat)
    (D : List Stmt) : Prop :=
  ∃ o' k' n₁ D₁ D₂, e' = .member o' k' optional span ∧ D = D₁ ++ D₂ ∧
    cmp.scene.Chains n n₁ ((o.shape cmp.caps cmp.counts).object (o.isPending cmp.caps)) D₁ o o' ∧
    FollowsKey cmp k k' n₁ n' D₂

theorem member_follow (ho : Follow cmp (expr o) (FollowsExpr cmp o))
    (hdirect : (Node.expr o).IsDirect cmp.caps cmp.known) (hk : Follow cmp (key k) (FollowsKey cmp k))
    (optional : Bool) (span : Span) : Follow cmp (expr (.member o k optional span)) fun r n n' D =>
      r.2 = false ∧ FollowsMember cmp o k optional span r.1 n n' D := by
  unfold expr
  refine (asObject_follow ho hdirect).bind fun o' => hk.map ?_
  intro k' n₁ n₂ D₂ hkey n D₁ hobject
  exact ⟨rfl, o', k', n₁, D₁, D₂, rfl, rfl, hobject, hkey⟩

theorem inPlace_member_follow {optional : Bool} {span : Span} (h : Follow cmp (expr (.member o k optional span)) fun r n n' D =>
      r.2 = false ∧ FollowsMember cmp o k optional span r.1 n n' D) :
    Follow cmp (inPlace (expr (.member o k optional span))) (FollowsMember cmp o k optional span) := by
  intro s hlocals
  refine inPlace_ensures (h s hlocals) ?_ ?_
  · rintro e' s' ⟨D, -, hready, -⟩
    cases hready
  · rintro e' s' ⟨D, hwalked, -, hmember⟩
    exact ⟨D, hwalked, hmember⟩

/-- The result of visiting a target. One that takes a value apart cannot be read, and a rest pattern takes
several values. -/
structure FollowsPattern (cmp : Comparison) (p p' : Pattern) (n n' : Nat) (D : List Stmt) : Prop where
  assigns : cmp.scene.Assigns n n' (p.shape cmp.caps cmp.counts) D p p'
  reads : p.isSingle = true → cmp.scene.Currents n n' (p.currentShape cmp.caps cmp.counts) D p p'
  rest : ∀ target, p = .rest target → ∃ target', p' = .rest target' ∧
    cmp.scene.Assigns n n' (target.shape cmp.caps cmp.counts) D target target'

/-- Visiting a pattern keeps its kind. -/
theorem pattern_kind (p : Pattern) (out : Outside) (s : State) :
    Ensures (pattern p) out s fun p' _ => p'.ctorIdx = p.ctorIdx := by
  cases p with
  | ident id => unfold pattern; exact rfl
  | hole => unfold pattern; exact rfl
  | array elements span => unfold pattern; exact Ensures.skip fun _ _ => rfl
  | object props span => unfold pattern; exact Ensures.skip fun _ _ => rfl
  | assign target default => unfold pattern; exact Ensures.skip fun _ _ => Ensures.skip fun _ _ => rfl
  | rest target => unfold pattern; exact Ensures.skip fun _ _ => rfl
  | member e => unfold pattern; exact Ensures.skip fun _ _ => rfl

section

variable {p : Pattern} {cap : Capabilities} {known : String → Prop}

theorem update_follow (hp : Follow cmp (pattern p) (FollowsPattern cmp p)) (op : UpdateOp) (before : Bool)
    (span : Span) : Follow cmp (expr (.update op before p span)) (FollowsExpr cmp (.update op before p span)) := by
  unfold expr
  refine hp.map fun p' n n' D hfollows => ⟨?_, rfl⟩
  by_cases hsingle : p.isSingle = true
  · exact Scene.Chains.update (hfollows.reads hsingle) hfollows.assigns op before span
  · refine Scene.Chains.fail hfollows.assigns.le (fun hnone => hfollows.assigns.nothing (Shape.hoists_andThen.1 hnone).2) ?_
    intro T
    rw [Eval.link]
    exact Eval.current_fails hsingle T _

theorem assign_follow (hp : Follow cmp (pattern p) (FollowsPattern cmp p))
    (he : Follow cmp (inPlace (expr e)) (FollowsValue cmp e)) (op : AssignOp) (span : Span) :
    Follow cmp (expr (.assign op p e span)) (FollowsExpr cmp (.assign op p e span)) := by
  unfold expr
  refine hp.bind fun p' => he.map ?_
  intro e' n₁ n₂ D₂ hvalue n D₁ htarget
  refine ⟨?_, rfl⟩
  cases op with
  | assign => exact Scene.Chains.assign htarget.assigns hvalue span
  | binary op =>
      by_cases hsingle : p.isSingle = true
      · exact Scene.Chains.assignBinary (htarget.reads hsingle) htarget.assigns hvalue op span
      · refine Scene.Chains.fail (htarget.assigns.le.trans hvalue.le) ?_ ?_
        · intro hnone
          obtain ⟨-, hbc⟩ := Shape.hoists_andThen.1 hnone
          obtain ⟨hb, hc⟩ := Shape.hoists_andThen.1 hbc
          rw [htarget.assigns.nothing hc, hvalue.nothing hb]
          rfl
        · intro T
          rw [Eval.link]
          exact Eval.current_fails hsingle T _
  | logical op =>
      by_cases hsingle : p.isSingle = true
      · exact Scene.Chains.assignLogical (htarget.reads hsingle) htarget.assigns hvalue op span
      · refine Scene.Chains.fail (htarget.assigns.le.trans hvalue.le) ?_ ?_
        · intro hnone
          obtain ⟨-, hbc⟩ := Shape.hoists_andThen.1 hnone
          obtain ⟨hb, hc⟩ := Shape.hoists_andThen.1 hbc
          rw [htarget.assigns.nothing hc, hvalue.nothing hb]
          rfl
        · intro T
          rw [Eval.link]
          exact Eval.current_fails hsingle T _

end

/-! ## All trees -/

theorem admits_cons {node : Node} {nodes : List Node} : cmp.Admits (node :: nodes) ↔
    node.IsDirect cmp.caps cmp.known ∧ cmp.Admits nodes := List.forall_mem_cons

theorem admits_append {nodes nodes' : List Node} : cmp.Admits (nodes ++ nodes') ↔
    cmp.Admits nodes ∧ cmp.Admits nodes' := List.forall_mem_append

theorem Comparison.Admits.self (h : cmp.Admits (Node.ofExpr e)) : (Node.expr e).IsDirect cmp.caps cmp.known := by
  refine h _ ?_
  cases e <;> simp [Node.ofExpr]

/-- The result of visiting the operands behind the first one of a sequence. -/
def FollowsOthers (cmp : Comparison) (more more' : List Expr) (n n' : Nat) (D : List Stmt) : Prop :=
  D = [] ∧ ∀ {m : Nat} {a : Shape} {D₀ : List Stmt} {e e' : Expr}, cmp.scene.Yields m n a D₀ e e' →
    cmp.scene.Lasts m n' (a.andThen (shapeOfOthers cmp.caps cmp.counts more)) D₀ (e :: more) (e' :: more')

/-- The result of visiting an operand that is no function. -/
theorem value_follow (hdirect : (Node.expr e).IsDirect cmp.caps cmp.known)
    (h : Follow cmp (expr e) (FollowsExpr cmp e)) :
    Follow cmp (inPlace (expr e)) fun e' n n' D => FollowsValue cmp e e' n n' D ∧ isAsyncArrow e' = false :=
  ((inPlace_follow h).and_ensures (inPlace_kind e cmp.outside)).mono fun _ _ _ _ hfollows =>
    ⟨hfollows.1, isAsyncArrow_eq_false hdirect hfollows.2⟩

theorem markAwait_follow : Follow cmp markAwait fun _ => Nothing :=
  fun s _ => ⟨[], (Walked.refl s).awaiting true, rfl, rfl⟩

/-- An operator that looks at no more than the value of its operand. -/
theorem unary_follow (h : Follow cmp (expr e) (FollowsExpr cmp e)) {op : UnaryOp} (hdelete : op ≠ .delete)
    (htype : op = .typeOf → ∀ name ispan, e ≠ .identifier name ispan) (span : Span) :
    Follow cmp (expr (.unary op e span)) (FollowsExpr cmp (.unary op e span)) := by
  have hshape : (Expr.unary op e span).shape cmp.caps cmp.counts = e.shape cmp.caps cmp.counts := by
    rw [Expr.shape]
    · exact fun _ _ _ _ hop _ => hdelete hop
    · exact hdelete
  unfold expr
  refine ((inPlace_follow h).and_ensures (inPlace_kind e cmp.outside)).map ?_
  rintro e' n n' D ⟨hvalue, hkind⟩
  have htype' : op = .typeOf → ∀ name ispan, e' ≠ .identifier name ispan := by
    rintro hop name ispan rfl
    rcases hkind with hkind | ⟨arg, harg⟩
    · cases e with
      | identifier name' ispan' => exact htype hop name' ispan' rfl
      | _ => cases hkind
    · cases harg
  refine ⟨?_, rfl⟩
  rw [hshape]
  exact Scene.Chains.unary hvalue span hdelete htype htype'

/-- An operand of `delete` that is no member. -/
theorem delete_follow (h : Follow cmp (expr e) (FollowsExpr cmp e))
    (hmember : ∀ o k optional ospan, e ≠ .member o k optional ospan) (span : Span) :
    Follow cmp (expr (.unary .delete e span)) (FollowsExpr cmp (.unary .delete e span)) := by
  have hshape : (Expr.unary .delete e span).shape cmp.caps cmp.counts = (e.shape cmp.caps cmp.counts).fixed := by
    rw [Expr.shape]
    exact hmember
  unfold expr
  refine ((inPlace_follow h).and_ensures (inPlace_kind e cmp.outside)).map ?_
  rintro e' n n' D ⟨hvalue, hkind⟩
  have hmember' : ∀ o k optional ospan, e' ≠ .member o k optional ospan := by
    rintro o k optional ospan rfl
    rcases hkind with hkind | ⟨arg, harg⟩
    · cases e with
      | member o' k' optional' ospan' => exact hmember o' k' optional' ospan' rfl
      | _ => cases hkind
    · cases harg
  refine ⟨?_, rfl⟩
  rw [hshape]
  exact Scene.Chains.delete hvalue span hmember hmember'

theorem deleteMember_follow {optional : Bool} {ospan : Span}
    (h : Follow cmp (expr (.member o k optional ospan)) fun r n n' D =>
      r.2 = false ∧ FollowsMember cmp o k optional ospan r.1 n n' D) (span : Span) :
    Follow cmp (expr (.unary .delete (.member o k optional ospan) span))
      (FollowsExpr cmp (.unary .delete (.member o k optional ospan) span)) := by
  rw [expr]
  refine (inPlace_member_follow h).map ?_
  rintro _ n n' _ ⟨o', k', n₁, D₁, D₂, rfl, rfl, hobject, hkey⟩
  exact ⟨Scene.Chains.deleteMember hobject hkey optional ospan span, rfl⟩

/-- Of the expressions of the body, only optional chains break off. -/
theorem valued_of_admits (o : Expr) (h : cmp.Admits (Node.ofExpr o)) (hchain : o.isOptionalChain = false) :
    cmp.scene.Valued o := by
  match o with
  | .member o k optional span =>
      simp only [Node.ofExpr, admits_cons, admits_append] at h
      obtain ⟨rfl, ho⟩ := Bool.or_eq_false_iff.1 hchain
      exact (valued_of_admits o h.2.1 ho).member k span
  | .call callee args optional span =>
      obtain ⟨name, ispan, rfl, hcap⟩ := Comparison.Admits.self h
      exact Scene.call_valued cmp.lawful hcap args optional ispan span
  | .literal .. | .template .. | .array .. | .object .. | .identifier .. | .arrow .. | .function .. | .this ..
  | .await .. | .unary .. | .update .. | .binary .. | .logical .. | .conditional .. | .assign .. | .sequence .. =>
      refine fun T T' _ => Eval.link_valued _ ?_ ?_ T T' <;> simp

theorem memberTarget_follow {optional : Bool} {span : Span}
    (h : Follow cmp (expr (.member o k optional span)) fun r n n' D =>
      r.2 = false ∧ FollowsMember cmp o k optional span r.1 n n' D)
    (hvalued : o.isOptionalChain = false → cmp.scene.Valued o) :
    Follow cmp (pattern (.member (.member o k optional span)))
      (FollowsPattern cmp (.member (.member o k optional span))) := by
  rw [pattern]
  refine h.map ?_
  rintro ⟨_, _⟩ n n' _ ⟨rfl, o', k', n₁, D₁, D₂, rfl, rfl, hobject, hkey⟩
  refine ⟨Scene.Assigns.member hobject hkey optional span, fun _ => ?_, ?_⟩
  · exact Scene.Currents.member (Scene.Chains.member hobject hkey hvalued optional span).yields
  · exact fun _ hrest => nomatch hrest

theorem typeOfName_follow {name : String} (hname : cmp.known name) (ispan span : Span) :
    Follow cmp (expr (.unary .typeOf (.identifier name ispan) span))
      (FollowsExpr cmp (.unary .typeOf (.identifier name ispan) span)) := by
  rw [expr]
  refine (callee_follow hname ispan).map ?_
  rintro _ n _ _ ⟨rfl, rfl, rfl⟩
  exact ⟨Scene.Chains.typeOfName cmp.lawful (cmp.ordinary hname) ispan span, rfl⟩

mutual

theorem expr_follow (cmp : Comparison) (e : Expr) (h : cmp.Admits (Node.ofExpr e)) :
    Follow cmp (expr e) (FollowsExpr cmp e) := by
  match e with
  | .literal lit span =>
      unfold expr
      exact Follow.pure fun _ => ⟨Scene.Chains.literal lit span, rfl⟩
  | .this span =>
      unfold expr
      refine Follow.pure fun n => ⟨Scene.Chains.fail (Nat.le_refl n) (fun _ => rfl) fun T => ?_, rfl⟩
      rw [Eval.link]
      exact ⟨_, rfl⟩
  | .function fn =>
      unfold expr
      refine Follow.pure fun n => ⟨Scene.Chains.fail (Nat.le_refl n) (fun _ => rfl) fun T => ?_, rfl⟩
      rw [Eval.link]
      exact ⟨_, rfl⟩
  | .identifier name span =>
      have hname : cmp.known name := Comparison.Admits.self h
      refine (identifier_follow hname span).mono ?_
      rintro _ n _ _ ⟨rfl, rfl, rfl⟩
      exact ⟨Scene.Chains.identifier cmp.lawful (cmp.ordinary hname) span, rfl⟩
  | .template parts es span =>
      simp only [Node.ofExpr, admits_cons] at h
      unfold expr
      exact (values_follow cmp es h.2).map fun es' n n' D htexts => ⟨Scene.Chains.template parts htexts span, rfl⟩
  | .array es span =>
      simp only [Node.ofExpr, admits_cons] at h
      unfold expr
      exact (items_follow cmp es h.2).map fun es' n n' D hitems => ⟨Scene.Chains.array hitems.1 span, rfl⟩
  | .object ps span =>
      simp only [Node.ofExpr, admits_cons] at h
      unfold expr
      exact (properties_follow cmp ps h.2).map fun ps' n n' D hprops => ⟨Scene.Chains.object hprops span, rfl⟩
  | .member o k optional span =>
      simp only [Node.ofExpr, admits_cons, admits_append] at h
      refine (member_follow (expr_follow cmp o h.2.1) (Comparison.Admits.self h.2.1) (key_follow cmp k h.2.2) optional span).mono ?_
      rintro ⟨_, _⟩ n n' _ ⟨rfl, o', k', n₁, D₁, D₂, rfl, rfl, hobject, hkey⟩
      exact ⟨Scene.Chains.member hobject hkey (valued_of_admits o h.2.1) optional span, rfl⟩
  | .call callee args optional span =>
      simp only [Node.ofExpr, admits_cons, admits_append] at h
      obtain ⟨⟨name, ispan, rfl, hcap⟩, hcallee, hargs⟩ := h
      exact call_follow (Comparison.Admits.self hcallee) hcap (items_follow cmp args hargs) optional ispan span
  | .arrow ps body isAsync span => exact (Comparison.Admits.self h).elim
  | .await e span =>
      simp only [Node.ofExpr, admits_cons] at h
      unfold expr
      refine (inPlace_follow (expr_follow cmp e h.2)).bind fun e' => markAwait_follow.map ?_
      rintro _ n₁ _ _ ⟨rfl, rfl⟩ n D he
      rw [List.append_nil]
      exact ⟨Scene.Chains.await he span, rfl⟩
  | .unary op e span =>
      simp only [Node.ofExpr, admits_cons] at h
      have he := expr_follow cmp e h.2
      by_cases hdelete : op = .delete
      · subst hdelete
        by_cases hmember : ∃ o k optional ospan, e = .member o k optional ospan
        · obtain ⟨o, k, optional, ospan, hmember⟩ := hmember
          have hparts := parts_follow cmp e h.2 hmember
          subst hmember
          exact deleteMember_follow hparts span
        · exact delete_follow he (fun o k optional ospan heq => hmember ⟨o, k, optional, ospan, heq⟩) span
      · by_cases hname : op = .typeOf ∧ ∃ name ispan, e = .identifier name ispan
        · obtain ⟨rfl, name, ispan, rfl⟩ := hname
          exact typeOfName_follow (Comparison.Admits.self h.2) ispan span
        · exact unary_follow he hdelete (fun hop name ispan heq => hname ⟨hop, name, ispan, heq⟩) span
  | .update op before target span =>
      simp only [Node.ofExpr, admits_cons] at h
      exact update_follow (pattern_follow cmp target h.2) op before span
  | .binary op l r span =>
      simp only [Node.ofExpr, admits_cons, admits_append] at h
      unfold expr
      refine (inPlace_follow (expr_follow cmp l h.2.1)).bind fun l' => ?_
      refine (inPlace_follow (expr_follow cmp r h.2.2)).map ?_
      intro r' n₁ n₂ D₂ hr n D₁ hl
      exact ⟨Scene.Chains.binary hl hr op span, rfl⟩
  | .logical op l r span =>
      simp only [Node.ofExpr, admits_cons, admits_append] at h
      unfold expr
      refine (inPlace_follow (expr_follow cmp l h.2.1)).bind fun l' => ?_
      refine (lazily_follow (expr_follow cmp r h.2.2)).map ?_
      rintro r' n₁ n₂ _ ⟨rfl, hr⟩ n D₁ hl
      rw [List.append_nil]
      exact ⟨Scene.Chains.logical hl hr op span, rfl⟩
  | .conditional test yes no span =>
      simp only [Node.ofExpr, admits_cons, admits_append] at h
      unfold expr
      refine (inPlace_follow (expr_follow cmp test h.2.1)).bind fun test' => ?_
      refine (lazily_follow (expr_follow cmp yes h.2.2.1)).bind fun yes' => ?_
      refine (lazily_follow (expr_follow cmp no h.2.2.2)).map ?_
      rintro no' n₂ n₃ _ ⟨rfl, hno⟩ n₁ _ ⟨rfl, hyes⟩ n D htest
      rw [List.append_nil, List.append_nil]
      exact ⟨Scene.Chains.conditional htest hyes hno span, rfl⟩
  | .assign op target value span =>
      simp only [Node.ofExpr, admits_cons, admits_append] at h
      exact assign_follow (pattern_follow cmp target h.2.1) (inPlace_follow (expr_follow cmp value h.2.2)) op span
  | .sequence [] span =>
      unfold expr
      exact Follow.pure fun _ => ⟨Scene.Chains.sequence Scene.Lasts.nil span, rfl⟩
  | .sequence (e :: more) span =>
      simp only [Node.ofExpr, Node.ofExprs, admits_cons, admits_append] at h
      unfold expr
      refine (inPlace_follow (expr_follow cmp e h.2.1)).bind fun e' => ?_
      refine (lazyValues_follow cmp more h.2.2).map ?_
      rintro more' n₁ n₂ _ ⟨rfl, hmore⟩ n D he
      rw [List.append_nil]
      exact ⟨Scene.Chains.sequence (hmore he) span, rfl⟩

/-- The parts of a member access. -/
theorem parts_follow (cmp : Comparison) (e : Expr) (h : cmp.Admits (Node.ofExpr e)) {o : Expr} {k : Key}
    {optional : Bool} {span : Span} (hmember : e = .member o k optional span) :
    Follow cmp (expr e) fun r n n' D => r.2 = false ∧ FollowsMember cmp o k optional span r.1 n n' D := by
  cases e with
  | member o' k' optional' span' =>
      simp only [Node.ofExpr, admits_cons, admits_append] at h
      have hparts := member_follow (expr_follow cmp o' h.2.1) (Comparison.Admits.self h.2.1)
        (key_follow cmp k' h.2.2) optional' span'
      cases hmember
      exact hparts
  | _ => cases hmember

theorem values_follow (cmp : Comparison) (es : List Expr) (h : cmp.Admits (Node.ofExprs es)) :
    Follow cmp (values es) fun es' n n' D =>
      cmp.scene.Texts n n' (shapeOfExprs cmp.caps cmp.counts es) D es es' := by
  match es with
  | [] =>
      unfold values
      exact Follow.pure fun _ => Scene.Texts.nil
  | e :: more =>
      simp only [Node.ofExprs, admits_append] at h
      unfold values
      refine (inPlace_follow (expr_follow cmp e h.1)).bind fun e' => (values_follow cmp more h.2).map ?_
      intro more' n₁ n₂ D₂ hmore n D₁ he
      exact Scene.Texts.cons he hmore

theorem lazyValues_follow (cmp : Comparison) (more : List Expr) (h : cmp.Admits (Node.ofExprs more)) :
    Follow cmp (lazyValues more) (FollowsOthers cmp more) := by
  match more with
  | [] =>
      unfold lazyValues
      exact Follow.pure fun _ => ⟨rfl, fun he => Scene.Lasts.single he⟩
  | e :: more =>
      simp only [Node.ofExprs, admits_append] at h
      unfold lazyValues
      refine (lazily_follow (expr_follow cmp e h.1)).bind fun e' => (lazyValues_follow cmp more h.2).map ?_
      rintro more' n₁ n₂ _ ⟨rfl, hmore⟩ n _ ⟨rfl, he⟩
      refine ⟨rfl, fun {m a D₀ e₀ e₀'} he₀ => ?_⟩
      have hlasts := Scene.Lasts.cons he₀ (hmore he)
      rw [List.append_nil] at hlasts
      exact hlasts

theorem items_follow (cmp : Comparison) (es : List Item) (h : cmp.Admits (Node.ofItems es)) :
    Follow cmp (items es) (FollowsItems cmp es) := by
  match es with
  | [] =>
      unfold items
      exact Follow.pure fun _ => ⟨Scene.Elements.nil, fun _ he => nomatch he⟩
  | .hole :: more =>
      simp only [Node.ofItems] at h
      unfold items
      refine (items_follow cmp more h).map ?_
      rintro more' n n' D ⟨hmore, harrow⟩
      refine ⟨Scene.Elements.hole hmore, fun e he => harrow e ?_⟩
      simpa using he
  | .expr e :: more =>
      simp only [Node.ofItems, admits_append] at h
      unfold items
      refine (value_follow (Comparison.Admits.self h.1) (expr_follow cmp e h.1)).bind fun e' => (items_follow cmp more h.2).map ?_
      rintro more' n₁ n₂ D₂ ⟨hmore, harrow⟩ n D₁ ⟨he, hno⟩
      refine ⟨Scene.Elements.expr he hmore, fun e'' hmem => ?_⟩
      rcases List.mem_cons.1 hmem with hmem | hmem
      · cases hmem
        exact hno
      · exact harrow e'' hmem
  | .spread e :: more =>
      simp only [Node.ofItems, admits_append] at h
      unfold items
      refine (inPlace_follow (expr_follow cmp e h.1)).bind fun e' => (items_follow cmp more h.2).map ?_
      rintro more' n₁ n₂ D₂ ⟨hmore, harrow⟩ n D₁ he
      refine ⟨Scene.Elements.spread he hmore, fun e'' hmem => harrow e'' ?_⟩
      simpa using hmem

theorem key_follow (cmp : Comparison) (k : Key) (h : cmp.Admits (Node.ofKey k)) :
    Follow cmp (key k) (FollowsKey cmp k) := by
  match k with
  | .name id =>
      unfold key
      exact Follow.pure fun _ => Scene.Names.name id
  | .literal lit =>
      unfold key
      exact Follow.pure fun _ => Scene.Names.literal lit
  | .computed e =>
      simp only [Node.ofKey] at h
      unfold key
      exact (inPlace_follow (expr_follow cmp e h)).map fun e' n n' D he => Scene.Names.computed he

theorem properties_follow (cmp : Comparison) (ps : List Property) (h : cmp.Admits (Node.ofProperties ps)) :
    Follow cmp (properties ps) fun ps' n n' D =>
      cmp.scene.Sets n n' (shapeOfProperties cmp.caps cmp.counts ps) D ps ps' := by
  match ps with
  | [] =>
      unfold properties
      exact Follow.pure fun _ => Scene.Sets.nil
  | .spread e :: more =>
      simp only [Node.ofProperties, admits_append] at h
      unfold properties
      refine (inPlace_follow (expr_follow cmp e h.1)).bind fun e' => (properties_follow cmp more h.2).map ?_
      intro more' n₁ n₂ D₂ hmore n D₁ he
      exact Scene.Sets.spread he hmore
  | .init k value shorthand span :: more =>
      simp only [Node.ofProperties, admits_append] at h
      unfold properties
      refine (key_follow cmp k h.1).bind fun k' => ?_
      refine (inPlace_follow (expr_follow cmp value h.2.1)).bind fun value' => ?_
      refine (properties_follow cmp more h.2.2).map ?_
      intro more' n₂ n₃ D₃ hmore n₁ D₂ hvalue n D₁ hkey
      exact Scene.Sets.init hkey hvalue hmore shorthand span

theorem pattern_follow (cmp : Comparison) (p : Pattern) (h : cmp.Admits (Node.ofPattern p)) :
    Follow cmp (pattern p) (FollowsPattern cmp p) := by
  match p with
  | .ident id =>
      have hname : cmp.known id.name := h (.pattern (.ident id)) (by simp [Node.ofPattern])
      unfold pattern
      refine Follow.pure fun _ => ⟨Scene.Assigns.ident cmp.lawful (cmp.ordinary hname), fun _ => ?_, ?_⟩
      · exact Scene.Currents.ident cmp.lawful (cmp.ordinary hname)
      · exact fun _ hrest => nomatch hrest
  | .array elements span =>
      simp only [Node.ofPattern, admits_cons] at h
      unfold pattern
      refine (patterns_follow cmp elements h.2).map fun ps' n n' D hall => ⟨Scene.Assigns.array hall span, ?_, ?_⟩
      · exact fun hsingle => nomatch hsingle
      · exact fun _ hrest => nomatch hrest
  | .object props span =>
      simp only [Node.ofPattern, admits_cons] at h
      unfold pattern
      refine (patternProps_follow cmp props h.2).map fun ps' n n' D hall => ⟨Scene.Assigns.object hall span, ?_, ?_⟩
      · exact fun hsingle => nomatch hsingle
      · exact fun _ hrest => nomatch hrest
  | .assign target default =>
      simp only [Node.ofPattern, admits_cons, admits_append] at h
      unfold pattern
      refine (pattern_follow cmp target h.2.1).bind fun target' => ?_
      refine (lazily_follow (expr_follow cmp default h.2.2)).map ?_
      rintro default' n₁ n₂ _ ⟨rfl, hdefault⟩ n D htarget
      rw [List.append_nil]
      refine ⟨Scene.Assigns.assign hdefault htarget.assigns, ?_, ?_⟩
      · exact fun hsingle => nomatch hsingle
      · exact fun _ hrest => nomatch hrest
  | .rest target =>
      simp only [Node.ofPattern, admits_cons] at h
      unfold pattern
      refine (pattern_follow cmp target h.2).map fun target' n n' D htarget => ?_
      refine ⟨Scene.Assigns.rest htarget.assigns, (fun hsingle => nomatch hsingle), ?_⟩
      rintro _ ⟨⟩
      exact ⟨target', rfl, htarget.assigns⟩
  | .member e =>
      simp only [Node.ofPattern, admits_cons] at h
      obtain ⟨⟨o, k, optional, span, hmember⟩, he⟩ := h
      have hparts := parts_follow cmp e he hmember
      subst hmember
      simp only [Node.ofExpr, admits_cons, admits_append] at he
      exact memberTarget_follow hparts (valued_of_admits o he.2.1)
  | .hole =>
      unfold pattern
      refine Follow.pure fun _ => ⟨Scene.Assigns.hole, ?_, ?_⟩
      · exact fun hsingle => nomatch hsingle
      · exact fun _ hrest => nomatch hrest

theorem patterns_follow (cmp : Comparison) (ps : List Pattern) (h : cmp.Admits (Node.ofPatterns ps)) :
    Follow cmp (patterns ps) fun ps' n n' D =>
      cmp.scene.AssignsAll n n' (shapeOfPatterns cmp.caps cmp.counts ps) D ps ps' := by
  match ps with
  | [] =>
      unfold patterns
      exact Follow.pure fun _ => Scene.AssignsAll.nil
  | p :: more =>
      simp only [Node.ofPatterns, admits_append] at h
      unfold patterns
      refine ((pattern_follow cmp p h.1).and_ensures (pattern_kind p cmp.outside)).bind fun p' => ?_
      refine (patterns_follow cmp more h.2).map ?_
      rintro more' n₁ n₂ D₂ hmore n D₁ ⟨htarget, hkind⟩
      by_cases hrest : ∃ target, p = .rest target
      · obtain ⟨target, rfl⟩ := hrest
        obtain ⟨target', rfl, hassigns⟩ := htarget.rest target rfl
        exact Scene.AssignsAll.rest hassigns hmore
      · refine Scene.AssignsAll.cons htarget.assigns hmore (fun target hp => hrest ⟨target, hp⟩) ?_
        rintro target rfl
        cases p with
        | rest target' => exact hrest ⟨target', rfl⟩
        | _ => cases hkind

theorem patternProps_follow (cmp : Comparison) (props : List PatternProp)
    (h : cmp.Admits (Node.ofPatternProps props)) : Follow cmp (patternProps props) fun props' n n' D =>
      cmp.scene.AssignsEntries n n' (shapeOfPatternProps cmp.caps cmp.counts props) D props props' := by
  match props with
  | [] =>
      unfold patternProps
      exact Follow.pure fun _ => Scene.AssignsEntries.nil
  | .init k target shorthand :: more =>
      simp only [Node.ofPatternProps, admits_append] at h
      unfold patternProps
      refine (key_follow cmp k h.1).bind fun k' => ?_
      refine (pattern_follow cmp target h.2.1).bind fun target' => ?_
      refine (patternProps_follow cmp more h.2.2).map ?_
      intro more' n₂ n₃ D₃ hmore n₁ D₂ htarget n D₁ hkey
      exact Scene.AssignsEntries.init hkey htarget.assigns hmore shorthand
  | .rest target :: more =>
      simp only [Node.ofPatternProps, admits_append] at h
      unfold patternProps
      refine (pattern_follow cmp target h.1).bind fun target' => (patternProps_follow cmp more h.2).map ?_
      intro more' n₁ n₂ D₂ hmore n D₁ htarget
      exact Scene.AssignsEntries.rest htarget.assigns hmore

end

end

end Settle

end FieldScript
