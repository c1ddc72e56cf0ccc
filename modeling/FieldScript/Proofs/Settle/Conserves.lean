import FieldScript.Proofs.Settle.Insertions

/-!
# Steps of settling conserve what trees are made of

A step is given trees and answers others, and it may leave declarations that wait to be placed in front of the statement
at hand. Behind these, what it answers is accounted for by what it was given.

* `Conserves`: such a step, and one that leaves no declarations if it is closed.
* There is one rule for each way of putting steps together, and one for each kind of position.
-/

namespace FieldScript

open Contents (Under)

namespace Settle

open Walk (Ensures)

variable {α β γ : Type} {closed : Bool} {before before' used : Contents}

/-! ## Steps -/

/-- A step whose contents, behind the declarations that it leaves, are accounted for: by its own tree and by the
trees that it uses. A closed step leaves no declarations. -/
def Conserves (closed : Bool) (step : Walk α) (before used : Contents) (after : α → Contents) : Prop :=
  ∀ out s, Ensures step out s fun a s' => ∃ new made, s'.hoisted = s.hoisted ++ new ∧ (closed = true → new = []) ∧
    Numbered made s.temporaries s'.temporaries ∧ Accounted made (used + before) (Contents.behind new (after a))

/-- A step that leaves no declarations and makes no temporaries. -/
def Idle (step : Walk α) : Prop :=
  ∀ out s, Ensures step out s fun _ s' => s'.hoisted = s.hoisted ∧ s'.temporaries = s.temporaries

theorem markAwait_idle : Idle markAwait := fun _ _ => ⟨rfl, rfl⟩

theorem noteName_idle (name : String) : Idle (noteName name) := fun _ _ => noteName_ensures fun _ => ⟨rfl, rfl⟩

theorem callsAsync_idle (callee : Expr) : Idle (callsAsync callee) := fun _ _ => callsAsync_ensures ⟨rfl, rfl⟩

theorem declareAll_idle (names : List String) : Idle (declareAll names) := fun _ _ => ⟨rfl, rfl⟩

theorem noteFunction_idle (target : Pattern) (init : Option Expr) : Idle (noteFunction target init) := by
  intro out s
  unfold noteFunction
  split
  · split <;> exact ⟨rfl, rfl⟩
  · exact ⟨rfl, rfl⟩

namespace Conserves

variable {x : Walk α} {f : α → Walk β} {after : α → Contents} {after' : β → Contents}

theorem pure {a : α} (made : List Insertion) (hmade : Insertion.temporaries made = [])
    (h : Accounted made (used + before) (after a)) : Conserves closed (Pure.pure a) before used after := by
  intro out s
  exact Ensures.pure ⟨[], made, by simp, fun _ => rfl, .none _ hmade, by rwa [Contents.behind_nil]⟩

/-- A tree that is put together from trees visited before and from what is left of the one at hand. -/
theorem finish {a : α} (h : Under (after a) (used + before)) : Conserves closed (Pure.pure a) before used after :=
  pure [] rfl (.of_under h)

theorem made {a : α} (h : Under (after a) used) : Conserves closed (Pure.pure a) 0 used after :=
  finish (by rwa [add_zero])

/-- A tree that stays as it is. -/
theorem kept {a : α} (h : Under (after a) before) : Conserves closed (Pure.pure a) before 0 after :=
  finish (by rwa [zero_add])

/-- A step that leaves no declarations, where some may be left. -/
theorem weaken (hx : Conserves true x before used after) : Conserves closed x before used after := by
  intro out s
  refine (hx out s).mono fun a s' ⟨new, made, hnew, hnone, hnumbered, haccounted⟩ => ?_
  exact ⟨new, made, hnew, fun _ => hnone rfl, hnumbered, haccounted⟩

/-- A step behind another, which uses the result of the first one and trees that the first one has not used. It may use
a fact about the result. -/
theorem seq {P : α → Prop} {used' : Contents} (hx : Conserves closed x before used after)
    (hP : ∀ out s, Ensures x out s fun a _ => P a)
    (hf : ∀ a, P a → Conserves closed (f a) before' (after a + used') after') :
    Conserves closed (x >>= f) (before + before') (used + used') after' := by
  intro out s
  refine Ensures.bind (M := fun a s₁ => P a ∧ ∃ new made, s₁.hoisted = s.hoisted ++ new ∧ (closed = true → new = []) ∧
    Numbered made s.temporaries s₁.temporaries ∧ Accounted made (used + before) (Contents.behind new (after a)))
    ⟨hP out s, hx out s⟩ ?_
  rintro a s₁ ⟨ha, new, made, hnew, hnone, hnumbered, haccounted⟩
  refine (hf a ha out s₁).mono fun b s₂ ⟨new', made', hnew', hnone', hnumbered', haccounted'⟩ => ?_
  refine ⟨new ++ new', made ++ made', by rw [hnew', hnew, List.append_assoc], fun hclosed => ?_,
    hnumbered.append hnumbered', ?_⟩
  · rw [hnone hclosed, hnone' hclosed, List.append_nil]
  · rw [add_assoc] at haccounted'
    have hall := haccounted.trans (haccounted'.behind new)
    rwa [← Contents.behind_append,
      show used + before + (used' + before') = used + used' + (before + before') by abel] at hall

theorem bind_of {P : α → Prop} (hx : Conserves closed x before 0 after) (hP : ∀ out s, Ensures x out s fun a _ => P a)
    (hf : ∀ a, P a → Conserves closed (f a) before' (after a + used) after') :
    Conserves closed (x >>= f) (before + before') used after' := by
  simpa only [zero_add] using hx.seq hP hf

theorem bind (hx : Conserves closed x before 0 after)
    (hf : ∀ a, Conserves closed (f a) before' (after a + used) after') :
    Conserves closed (x >>= f) (before + before') used after' :=
  hx.bind_of (P := fun _ => True) (fun _ _ => trivial) fun a _ => hf a

/-- A step that only uses the result of the one in front. -/
theorem andThen (hx : Conserves closed x before used after) (hf : ∀ a, Conserves closed (f a) 0 (after a) after') :
    Conserves closed (x >>= f) before used after' := by
  have hseq : Conserves closed (x >>= f) (before + 0) (used + 0) after' :=
    hx.seq (P := fun _ => True) (fun _ _ => trivial) fun a _ => by rw [add_zero]; exact hf a
  simpa only [add_zero] using hseq

/-- A tree around another one. -/
theorem node {tree : α → β} (hx : Conserves closed x before 0 after) (h : ∀ a, after' (tree a) = after a)
    (hbefore : before' = before) : Conserves closed (do let a ← x; return tree a) before' 0 after' := by
  rw [hbefore]
  exact hx.andThen fun a => .made (.of_eq (h a))

/-- A tree around two others. -/
theorem node₂ {γ : Type} {y : Walk β} {before₁ before₂ : Contents} {after'' : γ → Contents} {tree : α → β → γ}
    (hx : Conserves closed x before₁ 0 after) (hy : Conserves closed y before₂ 0 after')
    (h : ∀ a b, after'' (tree a b) = after a + after' b) (hbefore : before = before₁ + before₂) :
    Conserves closed (do let a ← x; let b ← y; return tree a b) before 0 after'' := by
  rw [hbefore, ← add_zero before₂]
  refine hx.bind fun a => hy.bind fun b => .made (.of_eq ?_)
  rw [h, add_zero, add_comm]

/-- A tree around three others. -/
theorem node₃ {γ δ : Type} {y : Walk β} {z : Walk γ} {before₁ before₂ before₃ : Contents} {after₃ : γ → Contents}
    {after'' : δ → Contents} {tree : α → β → γ → δ} (hx : Conserves closed x before₁ 0 after)
    (hy : Conserves closed y before₂ 0 after') (hz : Conserves closed z before₃ 0 after₃)
    (h : ∀ a b c, after'' (tree a b c) = after a + (after' b + after₃ c))
    (hbefore : before = before₁ + (before₂ + before₃)) :
    Conserves closed (do let a ← x; let b ← y; let c ← z; return tree a b c) before 0 after'' := by
  rw [hbefore, ← add_zero before₃]
  refine hx.bind fun a => hy.bind fun b => hz.bind fun c => .made (.of_eq ?_)
  rw [h]
  abel

theorem skip (hx : Idle x) (hf : ∀ a, Conserves closed (f a) before used after') :
    Conserves closed (x >>= f) before used after' := by
  intro out s
  refine Ensures.bind (hx out s) fun a s₁ ⟨hhoisted, htemporaries⟩ => (hf a out s₁).mono fun b s₂ h => ?_
  rwa [hhoisted, htemporaries] at h

theorem congr (hx : Conserves closed x before used after) (h : before' = before) : Conserves closed x before' used after :=
  h ▸ hx

theorem ite {c : Prop} [Decidable c] {y : Walk α} (hx : c → Conserves closed x before used after)
    (hy : ¬c → Conserves closed y before used after) : Conserves closed (if c then x else y) before used after :=
  fun out s => Ensures.ite (fun hc => hx hc out s) fun hc => hy hc out s

/-- Other contents that are the same for every result. -/
theorem under (hx : Conserves closed x before used after) {after' : α → Contents} (h : ∀ a, Under (after' a) (after a)) :
    Conserves closed x before used after' := by
  intro out s
  refine (hx out s).mono fun a s' ⟨new, made, hnew, hnone, hnumbered, haccounted⟩ => ?_
  exact ⟨new, made, hnew, hnone, hnumbered, haccounted.under ((h a).behind new)⟩

/-- Trees that a step may use instead of others. -/
theorem using_under (hx : Conserves closed x before used after) {used' : Contents} (h : Under used used') :
    Conserves closed x before used' after := by
  intro out s
  refine (hx out s).mono fun a s' ⟨new, made, hnew, hnone, hnumbered, haccounted⟩ => ?_
  exact ⟨new, made, hnew, hnone, hnumbered, (Accounted.of_under h).trans haccounted⟩

/-- A closed step behind declarations that were there before. -/
theorem behind (hx : Conserves true x before used after) (decls : List Stmt) :
    Conserves true x before (Contents.behind decls used) fun a => Contents.behind decls (after a) := by
  intro out s
  refine (hx out s).mono fun a s' ⟨new, made, hnew, hnone, hnumbered, haccounted⟩ => ?_
  obtain rfl := hnone rfl
  refine ⟨[], made, hnew, fun _ => rfl, hnumbered, ?_⟩
  rw [Contents.behind_nil] at haccounted ⊢
  exact haccounted.behind decls

/-- The declarations that a step leaves are collected. -/
theorem collecting (hx : Conserves false x before 0 after) :
    Conserves true (Settle.collecting x) before 0 fun r => Contents.behind r.2 (after r.1) := by
  intro out s
  refine collecting_ensures ((hx out _).mono ?_)
  rintro a s' ⟨new, made, hnew, -, hnumbered, haccounted⟩
  have hall : s'.hoisted = new := hnew
  refine ⟨[], made, (List.append_nil _).symm, fun _ => rfl, hnumbered, ?_⟩
  rw [Contents.behind_nil]
  show Accounted made (0 + before) (Contents.behind s'.hoisted (after a))
  rwa [hall]

theorem inScope (hx : Conserves closed x before used after) : Conserves closed (Settle.inScope x) before used after :=
  fun out _ => inScope_ensures (hx out _)

theorem framed (hx : Conserves closed x before used after) (isAsync : Bool) :
    Conserves closed (Settle.framed isAsync x) before used fun r => after r.1 :=
  fun out _ => framed_ensures (hx out _)

end Conserves

/-! ## Positions -/

theorem inPlace_conserves {visited : Visited} (h : Conserves closed visited before 0 fun r => Contents.ofExpr r.1) :
    Conserves closed (inPlace visited) before 0 Contents.ofExpr :=
  fun out s => inPlace_ensures (h out s) (fun _ _ h => h) fun _ _ h => h

theorem asObject_conserves {visited : Visited} (h : Conserves false visited before 0 fun r => Contents.ofExpr r.1) :
    Conserves false (asObject visited) before 0 Contents.ofExpr := by
  intro out s
  refine asObject_ensures (h out s) ?_ fun _ _ h => h
  rintro e s' ⟨new, made, hnew, -, hnumbered, haccounted⟩
  refine ⟨new ++ [temporaryStmt s'.temporaries e], made ++ [.hoisted s'.temporaries], ?_, nofun,
    hnumbered.append (.one rfl), ?_⟩
  · show s'.hoisted ++ [_] = _
    rw [hnew, List.append_assoc]
  · have hstep := (Accounted.hoisted s'.temporaries e)
    rw [← add_zero (Contents.ofExpr e)] at hstep
    have hall := haccounted.trans (hstep.behind new)
    rwa [add_zero, ← Contents.behind_append] at hall

/-- A position that may not be reached leaves no declarations. -/
theorem lazily_conserves {visited : Visited} (h : Conserves false visited before 0 fun r => Contents.ofExpr r.1) :
    Conserves true (lazily visited) before 0 Contents.ofExpr := by
  unfold lazily
  refine (inPlace_conserves h).collecting.andThen ?_
  rintro ⟨e', decls⟩
  refine Conserves.ite (fun hnone => .made ?_) fun _ => .skip markAwait_idle fun _ => .pure [.thunk e'.span] rfl ?_
  · rw [List.isEmpty_iff.1 hnone, Contents.behind_nil]
    exact .refl _
  · rw [add_zero]
    exact Accounted.thunk decls e'

theorem placed_conserves {step : Walk Stmt} (h : Conserves false step before 0 Contents.ofStmt) :
    Conserves true (placed step) before 0 Contents.ofStmts := by
  unfold placed
  refine h.collecting.andThen ?_
  rintro ⟨stmt, decls⟩
  exact .made (.of_eq (by rw [← Contents.behind_ofStmts, Contents.ofStmts_singleton]))

/-- The body of a branch or loop. -/
theorem branch_conserves (body : Stmt) (h : Conserves true (statement body) before 0 Contents.ofStmts) :
    Conserves true (inScope (statement body)) before 0 fun outs => Contents.ofStmt (bodyOf body outs) :=
  h.inScope.under fun outs => .of_eq (Contents.ofStmt_bodyOf body outs)

/-! ## Functions -/

theorem exprBody_conserves {visited : Visited} (bare : Bool) (span : Span)
    (h : Conserves false visited before 0 fun r => Contents.ofExpr r.1) :
    Conserves true (exprBody bare visited span) before 0 Contents.ofArrowBody := by
  unfold exprBody
  refine (inPlace_conserves h).collecting.andThen ?_
  rintro ⟨e, decls⟩
  refine Conserves.ite (fun _ => .made ?_) fun hstays => .made ?_
  · exact .of_eq (Contents.ofStmts_returning decls e)
  · cases decls with
    | nil => exact .of_eq (by rw [Contents.behind_nil]; rfl)
    | cons d more => simp at hstays

/-- Moving a parameter, behind declarations that it needs. -/
theorem moveParam_conserves (p : Pattern) (decls : List Stmt) :
    Conserves true (moveParam p) 0 (Contents.behind decls (Contents.ofPattern .variable p))
      fun r => Contents.ofParams ([r.1], decls ++ [r.2]) := by
  intro out s
  unfold moveParam
  refine Ensures.bind (M := fun name s' => name = temporaryName s.temporaries ∧ s'.hoisted = s.hoisted ∧
    s'.temporaries = s.temporaries + 1) (temporary_ensures ⟨rfl, rfl, rfl⟩) ?_
  rintro _ s' ⟨rfl, hhoisted, htemporaries⟩
  have hfinish : ∀ (defaulted : Bool) (slot : Pattern) (target : Pattern) (value : Expr),
      Contents.ofPattern .parameter slot = ({.declared false (temporaryName s.temporaries)}, 0) →
      slot.boundNames = [temporaryName s.temporaries] →
      Contents.ofPattern .variable target + Contents.ofExpr value =
        Contents.ofPattern .variable p + Contents.insteadOf s.temporaries defaulted →
      Ensures (Pure.pure (slot, declareStmt .let [.mk target (some value) p.span] p.span) : Walk (Pattern × Stmt)) out s'
        fun r s' => ∃ new made, s'.hoisted = s.hoisted ++ new ∧ (true = true → new = []) ∧
          Numbered made s.temporaries s'.temporaries ∧
          Accounted made (Contents.behind decls (Contents.ofPattern .variable p) + 0)
            (Contents.behind new (Contents.ofParams ([r.1], decls ++ [r.2]))) := by
    intro defaulted slot target value hslot hnames hdecl
    refine Ensures.pure ⟨[], [.relocated s.temporaries defaulted], by simp [hhoisted], fun _ => rfl, ?_, ?_⟩
    · rw [htemporaries]
      exact .one rfl
    · rw [Contents.behind_nil, add_zero]
      exact Accounted.relocated decls hslot hnames ((Contents.ofStmt_declareLet target value p.span).trans hdecl)
  -- A default is tested for in the body: the temporary is compared, and taken unless it is undefined.
  have hdefault : ∀ (target : Pattern) (default : Expr) (span : Span),
      Contents.ofPattern .variable target + Contents.ofExpr (.conditional (.binary .strictEq
        (.identifier (temporaryName s.temporaries) span) (.identifier "undefined" span) span) default
          (.identifier (temporaryName s.temporaries) span) span) =
      Contents.ofPattern .variable (.assign target default) + Contents.insteadOf s.temporaries true := by
    intro target default span
    simp only [Contents.ofPattern, Contents.ofExpr, Census.ofPattern, Mentions.ofPattern, Census.ofExpr,
      Mentions.ofExpr, Contents.insteadOf, if_true, Prod.mk_add_mk, Multiset.insert_eq_cons, ← Multiset.singleton_add]
    refine Prod.ext ?_ ?_ <;> dsimp only <;> abel
  have hplain : ∀ span : Span, Contents.ofExpr (.identifier (temporaryName s.temporaries) span) =
      Contents.insteadOf s.temporaries false := fun _ => by
    simp only [Contents.ofExpr, Census.ofExpr, Mentions.ofExpr, Contents.insteadOf, Bool.false_eq_true, if_false, add_zero]
  cases p with
  | rest inner =>
      cases inner with
      | assign target default => exact hfinish true _ _ _ rfl rfl (hdefault target default _)
      | _ => exact hfinish false _ _ _ rfl rfl (congrArg _ (hplain _))
  | assign target default => exact hfinish true _ _ _ rfl rfl (hdefault target default _)
  | _ => exact hfinish false _ _ _ rfl rfl (congrArg _ (hplain _))

/-- A parameter and what moves into the body. Whether it moves or not, its target is a part of the result. -/
theorem param_conserves {visited : Walk Pattern} (moved : Bool)
    (h : Conserves false visited before 0 (Contents.ofPattern .variable)) :
    Conserves true (param visited moved) before 0 fun r => Contents.ofParams ([r.1], r.2) := by
  unfold param
  refine (h.collecting.framed false).andThen ?_
  rintro ⟨⟨p, decls⟩, flagged⟩
  have hmove : Conserves true (moveParam p >>= fun x => do
      declareAll p.boundNames
      return (x.1, decls ++ [x.2])) 0 (Contents.behind decls (Contents.ofPattern .variable p))
        fun r => Contents.ofParams ([r.1], r.2) :=
    (moveParam_conserves p decls).andThen fun x => .skip (declareAll_idle _) fun _ => .made (.refl _)
  have hstay : ¬((flagged || !decls.isEmpty || moved) = true) → Conserves true (do
      declareAll p.boundNames
      return (p, ([] : List Stmt))) 0 (Contents.behind decls (Contents.ofPattern .variable p))
        fun r => Contents.ofParams ([r.1], r.2) := by
    intro hstays
    refine .skip (declareAll_idle _) fun _ => .made ?_
    cases decls with
    | nil =>
        rw [Contents.behind_nil]
        refine ⟨?_, ?_⟩
        · simp only [Contents.ofParams, Census.ofPatterns, Census.ofStmts, add_zero]
          rfl
        · simp only [Contents.ofParams, Mentions.ofParams, Mentions.ofStmts, Mentions.behind_zero, add_zero]
          exact Mentions.ofPattern_mono (fun name => Multiset.zero_subset _) p
    | cons d more => simp at hstays
  exact .ite (fun _ => .skip markAwait_idle fun _ => .ite (fun _ => hmove) hstay) fun _ => .ite (fun _ => hmove) hstay

/-! ## Declarators -/

/-- A declarator whose target and initial value are visited one after the other. -/
theorem declares_conserves {target : Walk Pattern} {init : Walk (Option Expr)} (v : Naming) (span : Span)
    (htarget : Conserves closed target before 0 (Contents.ofPattern v))
    (hinit : Conserves closed init before' 0 Contents.ofOption) :
    Conserves closed (do declarator (← target) (← init) span) (before + before') 0
      fun d => Contents.ofDeclarators v [d] := by
  have hdeclares : Conserves closed (do declarator (← target) (← init) span) (before + (before' + 0)) 0
      fun d => Contents.ofDeclarators v [d] := by
    refine htarget.bind fun target' => hinit.bind fun init' => ?_
    refine .skip (declareAll_idle _) fun _ => .skip (noteFunction_idle _ _) fun _ => .made (.of_eq ?_)
    rw [Contents.ofDeclarators_singleton]
    abel
  rwa [add_zero] at hdeclares

end Settle
end FieldScript
