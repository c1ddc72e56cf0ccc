import FieldScript.Proofs.Settle.Walk
import FieldScript.Proofs.Syntax.Zones

/-!
# Settling leaves calls in their zones

Settling moves calls into declarations in front of a statement, but never out of a zone. Where it puts a
function around them, or moves a parameter into the body of its function, they end up in more zones and
not in fewer.

## Strategy

* `Stays`: what visiting a part of a statement leaves. Its calls are in the new tree or in declarations
  that wait to be placed. A step may use trees that were visited before it, so their calls are an argument.
* `Quiet`: what visiting a zone leaves. No declaration is waiting that was not waiting before.
* There is one rule for each kind of position, and then one case for each kind of tree.
-/

namespace FieldScript.Settle

open Walk (Ensures)

variable {α β γ : Type} {before before' used : Sites}

/-! ## Steps -/

/-- A step whose calls, and those of the trees that it uses, are kept by its result and by the
declarations that it leaves. -/
def Stays (step : Walk α) (before used : Sites) (after : α → Sites) : Prop :=
  ∀ out s, Ensures step out s fun a s' => ∃ new, s'.hoisted = s.hoisted ++ new ∧
    Kept (used + before) (Sites.ofStmts new + after a)

/-- A step whose calls are kept by its result. It leaves no declarations. -/
def Quiet (step : Walk α) (before : Sites) (after : α → Sites) : Prop :=
  ∀ out s, Ensures step out s fun a s' => s'.hoisted = s.hoisted ∧ Kept before (after a)

/-- A step that leaves no declarations and has nothing to do with calls. -/
def Silent (step : Walk α) : Prop := ∀ out s, Ensures step out s fun _ s' => s'.hoisted = s.hoisted

theorem markAwait_silent : Silent markAwait := fun _ _ => rfl

theorem noteName_silent (name : String) : Silent (noteName name) :=
  fun _ _ => noteName_ensures fun _ => rfl

theorem callsAsync_silent (callee : Expr) : Silent (callsAsync callee) :=
  fun _ _ => callsAsync_ensures rfl

namespace Stays

variable {x : Walk α} {f : α → Walk β} {after : α → Sites} {after' : β → Sites}

theorem pure {a : α} (h : Kept (used + before) (after a)) : Stays (Pure.pure a) before used after := by
  intro out s
  refine Ensures.pure ⟨[], by simp, ?_⟩
  rwa [Sites.ofStmts, zero_add]

/-- A tree that is put together from trees visited before. -/
theorem made {a : α} (h : after a = used) : Stays (Pure.pure a) 0 used after :=
  pure (by rw [h, add_zero]; exact Kept.refl used)

/-- What follows a step may use a fact about its result. -/
theorem bind_of {P : α → Prop} (hx : Stays x before 0 after) (hP : ∀ out s, Ensures x out s fun a _ => P a)
    (hf : ∀ a, P a → Stays (f a) before' (after a + used) after') :
    Stays (x >>= f) (before + before') used after' := by
  intro out s
  refine Ensures.bind (M := fun a s₁ => P a ∧ ∃ new, s₁.hoisted = s.hoisted ++ new ∧
    Kept (0 + before) (Sites.ofStmts new + after a)) ⟨hP out s, hx out s⟩ ?_
  rintro a s₁ ⟨ha, new, hnew, hkept⟩
  refine (hf a ha out s₁).mono fun b s₂ ⟨new', hnew', hkept'⟩ => ?_
  refine ⟨new ++ new', by rw [hnew', hnew, List.append_assoc], ?_⟩
  rw [zero_add] at hkept
  have hfirst : Kept (used + (before + before')) (Sites.ofStmts new + (after a + used + before')) := by
    have hframed := (hkept.add (Kept.refl used)).add (Kept.refl before')
    rwa [show used + (before + before') = before + used + before' by abel,
      show Sites.ofStmts new + (after a + used + before') =
        Sites.ofStmts new + after a + used + before' by abel]
  rw [Sites.ofStmts_append, add_assoc]
  exact hfirst.trans ((Kept.refl _).add hkept')

theorem bind (hx : Stays x before 0 after) (hf : ∀ a, Stays (f a) before' (after a + used) after') :
    Stays (x >>= f) (before + before') used after' :=
  hx.bind_of (P := fun _ => True) (fun _ _ => trivial) fun a _ => hf a

/-- A step that has nothing to do with calls in front of another. -/
theorem skip (hx : Silent x) (hf : ∀ a, Stays (f a) before used after') :
    Stays (x >>= f) before used after' := by
  intro out s
  refine Ensures.bind (hx out s) fun a s₁ hfirst => (hf a out s₁).mono fun b s₂ ⟨new, hnew, hkept⟩ => ?_
  exact ⟨new, by rw [hnew, hfirst], hkept⟩

theorem congr (hx : Stays x before used after) (h : before' = before) : Stays x before' used after := h ▸ hx

theorem ite {c : Prop} [Decidable c] {y : Walk α} (hx : c → Stays x before used after)
    (hy : ¬c → Stays y before used after) : Stays (if c then x else y) before used after :=
  fun out s => Ensures.ite (fun hc => hx hc out s) fun hc => hy hc out s

/-- The declarations that a step leaves are collected. -/
theorem collecting (hx : Stays x before 0 after) :
    Quiet (Settle.collecting x) before fun r => Sites.ofStmts r.2 + after r.1 := by
  intro out s
  refine collecting_ensures ((hx out _).mono fun a s' ⟨new, hnew, hkept⟩ => ⟨rfl, ?_⟩)
  have hall : s'.hoisted = new := hnew
  show Kept before (Sites.ofStmts s'.hoisted + after a)
  rw [zero_add] at hkept
  rwa [hall]

theorem inScope (hx : Stays x before used after) : Stays (Settle.inScope x) before used after :=
  fun out _ => inScope_ensures (hx out _)

end Stays

namespace Quiet

variable {x : Walk α} {f : α → Walk β} {after : α → Sites} {after' : β → Sites}

theorem stays (hx : Quiet x before after) : Stays x before 0 after := by
  intro out s
  refine (hx out s).mono fun a s' ⟨hhoisted, hkept⟩ => ⟨[], by simpa using hhoisted, ?_⟩
  rwa [Sites.ofStmts, zero_add, zero_add]

theorem pure {a : α} (h : Kept before (after a)) : Quiet (Pure.pure a) before after :=
  fun _ _ => Ensures.pure ⟨rfl, h⟩

/-- What follows a step may use that its calls are kept. -/
theorem bind (hx : Quiet x before after) (hf : ∀ a, Kept before (after a) → Quiet (f a) before' after') :
    Quiet (x >>= f) before' after' := by
  intro out s
  refine Ensures.bind (hx out s) fun a s₁ ⟨hhoisted, hkept⟩ => (hf a hkept out s₁).mono ?_
  exact fun b s₂ ⟨hhoisted', hkept'⟩ => ⟨hhoisted'.trans hhoisted, hkept'⟩

theorem skip (hx : Silent x) (hf : ∀ a, Quiet (f a) before after') : Quiet (x >>= f) before after' := by
  intro out s
  refine Ensures.bind (hx out s) fun a s₁ hfirst => (hf a out s₁).mono ?_
  exact fun b s₂ ⟨hhoisted, hkept⟩ => ⟨hhoisted.trans hfirst, hkept⟩

theorem mono (hx : Quiet x before after) {after' : α → Sites}
    (h : ∀ a, Kept before (after a) → Kept before' (after' a)) : Quiet x before' after' :=
  fun out s => (hx out s).mono fun a _ ⟨hhoisted, hkept⟩ => ⟨hhoisted, h a hkept⟩

theorem ite {c : Prop} [Decidable c] {y : Walk α} (hx : c → Quiet x before after)
    (hy : ¬c → Quiet y before after) : Quiet (if c then x else y) before after :=
  fun out s => Ensures.ite (fun hc => hx hc out s) fun hc => hy hc out s

/-- A fact about the result that has nothing to do with calls. -/
theorem and_ensures {P : α → Prop} (hx : Quiet x before after) (hP : ∀ out s, Ensures x out s fun a _ => P a)
    {after' : α → Sites} (h : ∀ a, P a → Kept before (after a) → Kept before' (after' a)) :
    Quiet x before' after' :=
  fun out s => ⟨(hx out s).1, h _ (hP out s) (hx out s).2⟩

theorem inScope (hx : Quiet x before after) : Quiet (Settle.inScope x) before after :=
  fun out _ => inScope_ensures (hx out _)

theorem framed (hx : Quiet x before after) (isAsync : Bool) :
    Quiet (Settle.framed isAsync x) before fun r => after r.1 :=
  fun out _ => framed_ensures (hx out _)

end Quiet

/-! ## Spans -/

/-- Visiting an expression keeps the place it was read from. -/
theorem expr_span (e : Expr) (out : Outside) (s : State) :
    Ensures (expr e) out s fun r _ => r.1.span = e.span := by
  cases e with
  | call callee args optional span =>
      unfold expr
      refine Ensures.skip fun capability s' => Ensures.skip fun callee s' => Ensures.skip fun args s' => ?_
      exact Ensures.ite (fun _ => rfl) fun _ => rfl
  | sequence es span =>
      unfold expr
      split
      · exact rfl
      · exact Ensures.skip fun e s' => Ensures.skip fun more s' => rfl
  | literal lit span => unfold expr; exact rfl
  | this span => unfold expr; exact rfl
  | function fn => unfold expr; exact rfl
  | identifier name span => unfold expr; exact Ensures.skip fun _ _ => rfl
  | template parts es span => unfold expr; exact Ensures.skip fun _ _ => rfl
  | array es span => unfold expr; exact Ensures.skip fun _ _ => rfl
  | object ps span => unfold expr; exact Ensures.skip fun _ _ => rfl
  | arrow ps body isAsync span => unfold expr; exact Ensures.skip fun _ _ => rfl
  | unary op e span => unfold expr; exact Ensures.skip fun _ _ => rfl
  | update op before target span => unfold expr; exact Ensures.skip fun _ _ => rfl
  | await e span => unfold expr; exact Ensures.skip fun _ _ => Ensures.skip fun _ _ => rfl
  | member object k optional span =>
      unfold expr
      exact Ensures.skip fun _ _ => Ensures.skip fun _ _ => rfl
  | binary op left right span => unfold expr; exact Ensures.skip fun _ _ => Ensures.skip fun _ _ => rfl
  | logical op left right span => unfold expr; exact Ensures.skip fun _ _ => Ensures.skip fun _ _ => rfl
  | assign op target value span => unfold expr; exact Ensures.skip fun _ _ => Ensures.skip fun _ _ => rfl
  | conditional test yes no span =>
      unfold expr
      exact Ensures.skip fun _ _ => Ensures.skip fun _ _ => Ensures.skip fun _ _ => rfl

theorem inPlace_span (e : Expr) (out : Outside) (s : State) :
    Ensures (inPlace (expr e)) out s fun e' _ => e'.span = e.span :=
  inPlace_ensures (expr_span e out s) (fun _ _ h => h) fun _ _ h => h

theorem lazily_span (e : Expr) (out : Outside) (s : State) :
    Ensures (lazily (expr e)) out s fun e' _ => e'.span = e.span :=
  lazily_ensures (inPlace_span e out _) (fun _ _ h _ => h) fun _ _ h _ => h

/-! ## Positions -/

theorem inPlace_stays {visited : Visited} (h : Stays visited before 0 fun r => Sites.ofExpr r.1) :
    Stays (inPlace visited) before 0 Sites.ofExpr := by
  intro out s
  refine inPlace_ensures (h out s) ?_ ?_
  · rintro e s' ⟨new, hnew, hkept⟩
    refine ⟨new, hnew, ?_⟩
    rwa [Sites.ofExpr_awaited]
  · rintro e s' hkept
    exact hkept

theorem ofStmt_temporaryStmt (n : Nat) (e : Expr) : Sites.ofStmt (temporaryStmt n e) = Sites.ofExpr e := by
  simp [temporaryStmt, declareStmt, Sites.ofExpr_awaited, Sites.ofStmt, Sites.ofDeclarators, Sites.ofPattern,
    Sites.ofOption]

theorem asObject_stays {visited : Visited} (h : Stays visited before 0 fun r => Sites.ofExpr r.1) :
    Stays (asObject visited) before 0 Sites.ofExpr := by
  intro out s
  refine asObject_ensures (h out s) ?_ ?_
  · rintro e s' ⟨new, hnew, hkept⟩
    refine ⟨new ++ [temporaryStmt s'.temporaries e], ?_, ?_⟩
    · show s'.hoisted ++ [_] = _
      rw [hnew, List.append_assoc]
    · rw [Sites.ofStmts_append, Sites.ofStmts, Sites.ofStmts, ofStmt_temporaryStmt, Sites.ofExpr, add_zero,
        add_zero]
      exact hkept
  · rintro e s' hkept
    exact hkept

theorem ofStmts_returning (decls : List Stmt) (e : Expr) :
    Sites.ofStmts (decls ++ [returning e]) = Sites.ofStmts decls + Sites.ofExpr e := by
  rw [Sites.ofStmts_append, Sites.ofStmts, Sites.ofStmts, Sites.ofStmt_returning, add_zero]

/-- A function around declarations and an expression keeps their calls. -/
theorem kept_thunk (decls : List Stmt) (e : Expr) :
    Kept (Sites.ofStmts decls + Sites.ofExpr e) (Sites.ofExpr (thunk decls e)) := by
  have hbody := ((Kept.refl (Sites.ofStmts decls + Sites.ofExpr e)).trans (Kept.deeper _ (.body e.span))).trans
    (Kept.deeper _ (.function e.span))
  have hsites : Sites.ofExpr (thunk decls e) =
      Sites.inside (.function e.span) (Sites.inside (.body e.span) (Sites.ofStmts decls + Sites.ofExpr e)) +
        {⟨none, e.span, []⟩} := by
    simp only [thunk, Sites.ofExpr_awaited, Sites.ofExpr, Sites.ofItems, Sites.ofPatterns, Sites.ofArrowBody, Sites.ofBlock,
      ofStmts_returning, Expr.name?, zero_add, add_zero]
    rw [add_comm]
  rw [hsites]
  exact hbody.grow fun c hc => by rw [Multiset.mem_singleton.1 hc]

/-- A position that may not be reached keeps its calls and leaves no declarations. -/
theorem lazily_keeps {visited : Visited} (h : Stays visited before 0 fun r => Sites.ofExpr r.1) :
    Quiet (lazily visited) before Sites.ofExpr := by
  unfold lazily
  refine (inPlace_stays h).collecting.bind ?_
  rintro ⟨e', decls⟩ hkept
  refine Quiet.ite (fun hnone => Quiet.pure ?_) fun _ => Quiet.skip markAwait_silent fun _ => Quiet.pure ?_
  · rw [List.isEmpty_iff.1 hnone, Sites.ofStmts, zero_add] at hkept
    exact hkept
  · exact hkept.trans (kept_thunk decls e')

/-- The same as a zone of the tree around it. -/
theorem lazily_quiet (e : Expr) (h : Stays (expr e) before 0 fun r => Sites.ofExpr r.1) :
    Quiet (lazily (expr e)) (Sites.inside (.guarded e.span) before)
      fun e' => Sites.inside (.guarded e'.span) (Sites.ofExpr e') := by
  refine (lazily_keeps h).and_ensures (lazily_span e) fun e' hspan hkept => ?_
  rw [hspan]
  exact hkept.inside _

theorem placed_quiet {step : Walk Stmt} (h : Stays step before 0 Sites.ofStmt) :
    Quiet (placed step) before Sites.ofStmts := by
  refine h.collecting.bind ?_
  rintro ⟨stmt, decls⟩ hkept
  refine Quiet.pure ?_
  rwa [Sites.ofStmts_append, Sites.ofStmts, Sites.ofStmts, add_zero]

/-- A block becomes a block that was read from the same place. -/
theorem statement_block_span (b : Block) (out : Outside) (s : State) :
    Ensures (statement (.block b)) out s fun outs _ => ∃ decls b', outs = decls ++ [Stmt.block b'] ∧
      b'.span = b.span := by
  obtain ⟨stmts, span⟩ := b
  rw [statement_block]
  refine placed_ensures ?_
  refine Ensures.bind (M := fun (b' : Block) _ => b'.span = span) ?_ fun b' s' hspan => ⟨_, b', rfl, hspan⟩
  unfold block
  exact Ensures.skip fun outs s' => rfl

theorem bodyOf_span (body : Stmt) (out : Outside) (s : State) :
    Ensures (inScope (statement body)) out s fun outs _ => (bodyOf body outs).span = body.span := by
  refine inScope_ensures ?_
  cases body with
  | block b =>
      refine (statement_block_span b out _).mono ?_
      rintro outs s' ⟨decls, b', rfl, hspan⟩
      cases decls with
      | nil => exact hspan
      | cons d more => cases more <;> rfl
  | _ => exact rfl

theorem ofStmt_bodyOf (body : Stmt) (outs : List Stmt) :
    Sites.ofStmt (bodyOf body outs) = Sites.ofStmts outs := by
  unfold bodyOf
  split
  · rw [Sites.ofStmts, Sites.ofStmts, add_zero]
  · rw [Sites.ofStmt, Sites.ofBlock]

/-- The body of a branch or loop. -/
theorem branch_quiet (body : Stmt) (h : Quiet (statement body) before Sites.ofStmts) :
    Quiet (inScope (statement body)) (Sites.inside (.body body.span) before) fun outs =>
      Sites.inside (.body (bodyOf body outs).span) (Sites.ofStmt (bodyOf body outs)) := by
  refine h.inScope.and_ensures (bodyOf_span body) fun outs hspan hkept => ?_
  rw [hspan, ofStmt_bodyOf]
  exact hkept.inside _

/-! ## Functions -/

theorem ofArrowBody_withMoved (moved : List Stmt) (body : ArrowBody) (span : Span) :
    Sites.ofArrowBody (withMoved moved body span) = Sites.ofStmts moved + Sites.ofArrowBody body := by
  unfold withMoved
  cases moved with
  | nil => rw [Sites.ofStmts, zero_add]; rfl
  | cons d more =>
      cases body with
      | expr e => exact ofStmts_returning (d :: more) e
      | block b =>
          obtain ⟨stmts, bspan⟩ := b
          exact Sites.ofStmts_append (d :: more) stmts

theorem exprBody_quiet {visited : Visited} (bare : Bool) (span : Span)
    (h : Stays visited before 0 fun r => Sites.ofExpr r.1) :
    Quiet (exprBody bare visited span) before Sites.ofArrowBody := by
  unfold exprBody
  refine (inPlace_stays h).collecting.bind ?_
  rintro ⟨e, decls⟩ hkept
  refine Quiet.ite (fun _ => Quiet.pure ?_) fun hstays => Quiet.pure ?_
  · rwa [Sites.ofArrowBody, Sites.ofBlock, ofStmts_returning]
  · cases decls with
    | nil => rwa [Sites.ofStmts, zero_add] at hkept
    | cons d more => simp at hstays

/-- The declaration that a parameter becomes has the calls of the parameter. A default is then the branch of
a conditional. -/
theorem moveParam_quiet (p : Pattern) :
    Quiet (moveParam p) (Sites.ofPattern p) fun r => Sites.ofPattern r.1 + Sites.ofStmt r.2 := by
  intro out s
  unfold moveParam
  refine Ensures.bind (M := fun _ s' => s'.hoisted = s.hoisted) (temporary_ensures rfl) ?_
  intro name s' hhoisted
  cases p with
  | rest inner =>
      cases inner <;> refine Ensures.pure ⟨hhoisted, ?_⟩
      all_goals simp [declareStmt, Sites.ofStmt, Sites.ofDeclarators, Sites.ofOption, Sites.ofExpr,
        Sites.ofPattern, Kept.refl]
  | _ =>
      refine Ensures.pure ⟨hhoisted, ?_⟩
      simp [declareStmt, Sites.ofStmt, Sites.ofDeclarators, Sites.ofOption, Sites.ofExpr, Sites.ofPattern,
        Kept.refl]

theorem declareAll_silent (names : List String) : Silent (declareAll names) := fun _ _ => rfl

/-- A parameter and what moves into the body. -/
theorem param_quiet {visited : Walk Pattern} (moved : Bool) (h : Stays visited before 0 Sites.ofPattern) :
    Quiet (param visited moved) before fun r => Sites.ofPattern r.1 + Sites.ofStmts r.2 := by
  unfold param
  refine (h.collecting.framed false).bind ?_
  rintro ⟨⟨p, decls⟩, flagged⟩ hkept
  have hmove : Quiet (moveParam p >>= fun x => do
      declareAll p.boundNames
      return (x.1, decls ++ [x.2])) before fun r => Sites.ofPattern r.1 + Sites.ofStmts r.2 := by
    refine (moveParam_quiet p).bind ?_
    rintro ⟨slot, decl⟩ hmoved
    refine Quiet.skip (declareAll_silent _) fun _ => Quiet.pure (hkept.trans ?_)
    rw [Sites.ofStmts_append, Sites.ofStmts, Sites.ofStmts, add_zero, add_left_comm]
    exact (Kept.refl _).add hmoved
  have hstay : ¬((flagged || !decls.isEmpty || moved) = true) → Quiet (do
      declareAll p.boundNames
      return (p, ([] : List Stmt))) before fun r => Sites.ofPattern r.1 + Sites.ofStmts r.2 := by
    intro hstays
    refine Quiet.skip (declareAll_silent _) fun _ => Quiet.pure ?_
    cases decls with
    | nil => rwa [Sites.ofStmts, add_zero, ← zero_add (Sites.ofPattern p), ← Sites.ofStmts]
    | cons d more => simp at hstays
  exact Quiet.ite (fun _ => Quiet.skip markAwait_silent fun _ => Quiet.ite (fun _ => hmove) hstay)
    fun _ => Quiet.ite (fun _ => hmove) hstay

/-! ## Declarators -/

/-- The calls in a declarator, given those of its initial value. -/
def ofDeclarator (ofInit : Option Expr → Sites) : Declarator → Sites
  | .mk target init _ => Sites.ofPattern target + ofInit init

theorem ofStmt_declareStmt (kind : DeclKind) (ds : List Declarator) (span : Span) :
    Sites.ofStmt (declareStmt kind ds span) = Sites.ofDeclarators ds := by
  rw [declareStmt, Sites.ofStmt]

theorem noteFunction_silent (target : Pattern) (init : Option Expr) : Silent (noteFunction target init) := by
  intro out s
  unfold noteFunction
  split
  · split <;> exact rfl
  · exact rfl

/-- A declarator whose target and initial value are visited one after the other. -/
theorem declares_stays {target : Walk Pattern} {init : Walk (Option Expr)} {ofInit : Option Expr → Sites}
    (span : Span) (htarget : Stays target before 0 Sites.ofPattern) (hinit : Stays init before' 0 ofInit) :
    Stays (do declarator (← target) (← init) span) (before + before') 0 (ofDeclarator ofInit) := by
  have hdeclares : Stays (do declarator (← target) (← init) span) (before + (before' + 0)) 0
      (ofDeclarator ofInit) := by
    refine htarget.bind fun target' => hinit.bind fun init' => ?_
    refine Stays.skip (declareAll_silent _) fun _ => Stays.skip (noteFunction_silent _ _) fun _ => ?_
    exact Stays.made (by rw [ofDeclarator]; abel)
  rwa [add_zero] at hdeclares

end FieldScript.Settle
