import FieldScript.Proofs.Eval.Local
import FieldScript.Proofs.Eval.Moves
import FieldScript.Proofs.Settle.Shapes

/-!
# What the evaluation of single trees comes to

Equations for the trees whose evaluation depends on more than their kind, and the trees that always have a
value (`Eval.link_valued`): nothing but a chain breaks off.

A `for` loop opens with a frame for its variables and with its first clause. A round runs the test and the body in the
scope of the round, and opens the next one: with a new frame, in which the variables start with the values that they
have, and with the update (`Loop.rounds`, `Eval.stmt_for`).
-/

namespace FieldScript

/-! ## Equations -/

theorem Eval.last_cons (c : Context) (σ : Scope) (e next : Expr) (rest : List Expr) :
    Eval.last c (e :: next :: rest) σ = orUndefined (Eval.link c e σ) >>= fun _ => Eval.last c (next :: rest) σ := by
  rw [Eval.last]
  · unfold orUndefined
    simp only [bind_assoc, pure_bind]
  · exact fun h => nomatch h

/-- A call of a capability that no variable hides. -/
theorem Eval.link_capability {c : Context} {σ : Scope} {s : Store} {name : String}
    (hcap : c.capabilities.contains name = true) (hfree : Scope.find? s name σ = none) (args : List Item)
    (optional : Bool) (ispan span : Span) : Eval.link c (.call (.identifier name ispan) args optional span) σ s =
      (Eval.values c args σ >>= fun vs => c.call (.capability name) vs >>= fun v => Pure.pure (some v)) s := by
  have hlookup : (c.lookup name σ).run s = (.ok (.function (.capability name)), s) := by
    rw [Setting.lookup_free hfree, Setting.lookup_capability hcap]
    rfl
  rw [Eval.link, Eval.link]
  simp only [bind_assoc, pure_bind]
  refine (Comp.ofAct_bind hlookup _).trans ?_
  simp [Value.isNullish]

theorem Eval.link_unary (c : Context) (σ : Scope) {op : UnaryOp} {e : Expr} (span : Span)
    (htype : op = .typeOf → ∀ name ispan, e ≠ .identifier name ispan) (hdelete : op ≠ .delete) :
    Eval.link c (.unary op e span) σ = orUndefined (Eval.link c e σ) >>= fun v =>
      Comp.ofAct (op.apply v) >>= fun w => Pure.pure (some w) := by
  rw [Eval.link]
  · rfl
  · exact fun name ispan hop he => htype hop name ispan he
  · exact fun o k optional ospan hop _ => hdelete hop
  · exact hdelete

theorem Eval.link_delete (c : Context) (σ : Scope) {e : Expr} (span : Span)
    (h : ∀ o k optional ospan, e ≠ .member o k optional ospan) :
    Eval.link c (.unary .delete e span) σ = Pure.pure (some (.bool true)) := by
  rw [Eval.link]
  exact h

theorem Eval.bindPattern_undefined (c : Context) (σ : Scope) (target : Pattern) (default : Expr) (mode : BindMode) :
    Eval.bindPattern c (.assign target default) .undefined mode σ =
      orUndefined (Eval.link c default σ) >>= fun v => Eval.bindPattern c target v mode σ := by
  rw [Eval.bindPattern]

theorem Eval.bindPattern_defined (c : Context) (σ : Scope) (target : Pattern) (default : Expr) (mode : BindMode)
    {v : Value} (h : v ≠ .undefined) :
    Eval.bindPattern c (.assign target default) v mode σ = Eval.bindPattern c target v mode σ := by
  cases v with
  | undefined => exact absurd rfl h
  | _ => simp only [Eval.bindPattern]

/-- A target that is no rest pattern takes one value. -/
theorem Eval.bindElements_cons (c : Context) (σ : Scope) {p : Pattern} {ps : List Pattern} {vs : List Value}
    {mode : BindMode} (h : ∀ target, p ≠ .rest target) : Eval.bindElements c (p :: ps) vs mode σ =
      Eval.bindPattern c p (vs.head?.getD .undefined) mode σ >>= fun _ =>
        Eval.bindElements c ps (vs.drop 1) mode σ := by
  rw [Eval.bindElements]
  exact h

/-! ## Chains that do not break off -/

/-- A computation that never ends without a value. -/
def Comp.Valued (x : Comp (Option Value)) : Prop := ∀ s t, x s ≠ .done (.ok none) t

namespace Comp.Valued

variable {α : Type} {x : Comp α} {f : α → Comp (Option Value)}

theorem bind_at {P : α → Prop} {s : Store} (hx : ∀ t r, x s = .done (.ok r) t → P r)
    (hf : ∀ r, P r → (f r).Valued) (t : Store) : (x >>= f) s ≠ .done (.ok none) t := by
  intro h
  change (x s).bind f = _ at h
  cases hrun : x s with
  | done result s₁ =>
      rw [hrun] at h
      cases result with
      | error e => cases h
      | ok r => exact hf r (hx s₁ r hrun) s₁ t h
  | await p s₁ resume =>
      rw [hrun] at h
      cases h
  | spawn task s₁ resume =>
      rw [hrun] at h
      cases h

theorem bind (hf : ∀ r, (f r).Valued) : (x >>= f).Valued :=
  fun _ => bind_at (P := fun _ => True) (fun _ _ _ => trivial) fun r _ => hf r

theorem some (v : Value) : Valued (Pure.pure (some v)) := fun _ _ h => nomatch h

theorem link (x : Comp Value) : Valued (x >>= fun v => Pure.pure (.some v)) := bind fun v => some v

theorem raise {act : Act (Option Value)} {e : Halt} (h : ∀ s, (act.run s).1 = .error e) : Valued (Comp.ofAct act) := by
  intro s t hrun
  unfold Comp.ofAct at hrun
  cases hact : act.run s with
  | mk result s' =>
      have herror := h s
      rw [hact] at hrun herror
      subst herror
      cases hrun

end Comp.Valued

open FieldScript.Comp (Valued) in
/-- An expression that is no link of a chain has a value. -/
theorem Eval.link_valued {c : Context} {σ : Scope} (e : Expr)
    (hmember : ∀ o k optional span, e ≠ .member o k optional span)
    (hcall : ∀ callee args optional span, e ≠ .call callee args optional span) : (Eval.link c e σ).Valued := by
  match e with
  | .member o k optional span => exact absurd rfl (hmember o k optional span)
  | .call callee args optional span => exact absurd rfl (hcall callee args optional span)
  | .literal lit span => rw [link]; exact Valued.some _
  | .template parts es span => rw [link]; exact Valued.bind fun _ => Valued.some _
  | .array items span => rw [link]; exact Valued.bind fun _ => Valued.link _
  | .object props span => rw [link]; exact Valued.bind fun _ => Valued.link _
  | .identifier name span => rw [link]; exact Valued.link _
  | .arrow ps body isAsync span => rw [link]; exact Valued.bind fun _ => Valued.some _
  | .function fn => rw [link]; exact Valued.raise fun _ => rfl
  | .this span => rw [link]; exact Valued.raise fun _ => rfl
  | .await e span => rw [link]; exact Valued.bind fun _ => Valued.link _
  | .unary op e span =>
      by_cases hdelete : op = .delete
      · subst hdelete
        by_cases hoperand : ∃ o k optional ospan, e = .member o k optional ospan
        · obtain ⟨o, k, optional, ospan, rfl⟩ := hoperand
          rw [link]
          exact Valued.bind fun _ => Valued.bind fun _ => Valued.bind fun _ => Valued.some _
        · rw [link_delete c σ span fun o k optional ospan he => hoperand ⟨o, k, optional, ospan, he⟩]
          exact Valued.some _
      · by_cases hname : op = .typeOf ∧ ∃ name ispan, e = .identifier name ispan
        · obtain ⟨rfl, name, ispan, rfl⟩ := hname
          rw [link]
          exact Valued.link _
        · rw [link_unary c σ span (fun hop name ispan he => hname ⟨hop, name, ispan, he⟩) hdelete]
          exact Valued.bind fun _ => Valued.link _
  | .update op before target span =>
      rw [link]
      exact Valued.bind fun _ => Valued.bind fun _ => Valued.bind fun _ => Valued.some _
  | .binary op l r span => rw [link]; exact Valued.bind fun _ => Valued.bind fun _ => Valued.link _
  | .logical op l r span =>
      rw [link]
      refine Valued.bind fun v => ?_
      split
      · exact Valued.some _
      · exact Valued.link _
  | .conditional test yes no span =>
      rw [link]
      refine Valued.bind fun v => ?_
      split <;> exact Valued.link _
  | .assign .assign target e span =>
      rw [link]
      exact Valued.bind fun _ => Valued.bind fun _ => Valued.some _
  | .assign (.binary op) target e span =>
      rw [link]
      exact Valued.bind fun _ => Valued.bind fun _ => Valued.bind fun _ => Valued.bind fun _ => Valued.some _
  | .assign (.logical op) target e span =>
      rw [link]
      refine Valued.bind fun v => ?_
      split
      · exact Valued.some _
      · exact Valued.bind fun _ => Valued.bind fun _ => Valued.some _
  | .sequence es span => rw [link]; exact Valued.link _

/-! ## Loops round by round -/

namespace Scope

/-- A store in which a frame has got the variables of another scope. -/
def copied (names : List String) (current : Scope) (f : FrameRef) (s : Store) : Store :=
  names.foldl (fun s name => s.modifyFrame f
    (Entries.set name ⟨((find? s name current).map (·.value)).getD .undefined, false⟩)) s

theorem renewed_run (names : List String) (current parent : Scope) (s : Store) :
    (current.renewed names parent).run.run s =
      (.ok (⟨s.frames.size⟩ :: parent), copied names current ⟨s.frames.size⟩ s.addFrame.2) := by
  have hloop : ∀ (f : FrameRef) (t : Store), ((forIn names PUnit.unit fun name _ => do
      declare (f :: parent) name ((← current.lookup? name).getD .undefined) false
      pure (.yield PUnit.unit) : Act PUnit)).run.run t = (.ok PUnit.unit, copied names current f t) := by
    intro f
    induction names with
    | nil => exact fun t => rfl
    | cons name names ih =>
        intro t
        rw [List.forIn_cons]
        exact ih _
  have hrun : (current.renewed names parent).run.run s =
      ((forIn names PUnit.unit fun name _ => do
        declare (⟨s.frames.size⟩ :: parent) name ((← current.lookup? name).getD .undefined) false
        pure (.yield PUnit.unit)) >>= fun _ => pure (⟨s.frames.size⟩ :: parent) : Act Scope).run.run s.addFrame.2 := rfl
  rw [hrun, ExceptT.run_bind, StateT.run_bind, hloop]
  rfl

theorem copied_varies (names : List String) (current : Scope) (f : FrameRef) (s : Store) :
    Store.Varies [f] s (copied names current f s) := by
  induction names generalizing s with
  | nil => exact .refl s
  | cons name names ih => exact (Store.Varies.set List.mem_cons_self s name _).trans (ih _)

end Scope

/-- A loop whose first clause has run. -/
structure Loop where
  test : Option Expr
  update : Option Expr
  body : Stmt
  /-- The variables that each round has anew. -/
  names : List String
  /-- The scope around the loop. -/
  scope : Scope

namespace Loop

/-- The test and the body of a round: none if the test does not hold. -/
def turn (c : Context) (l : Loop) (current : Scope) : Comp (Option Completion) := do
  if ← Eval.holds c l.test current then
    return some (← Eval.stmt c l.body current)
  else return none

/-- What opens the next round: a frame with the variables, unless there are none, and the update. -/
def reopen (c : Context) (l : Loop) (current : Scope) : Comp Scope := do
  let next ← if l.names.isEmpty then pure current else current.renewed l.names l.scope
  Eval.discardValue c l.update next
  return next

/-- Rounds up to a number of them. -/
def rounds (c : Context) (l : Loop) : Nat → Scope → Comp Completion
  | 0, _ => Comp.exhausted
  | n + 1, current => do
    match ← l.turn c current with
    | none | some .break => return .normal
    | some (.return v) => return .return v
    | some .normal | some .continue =>
      let next ← l.reopen c current
      rounds c l n next

/-- A round as a loop has it. -/
def round (c : Context) (l : Loop) (current : Scope) : Comp (Round Scope Completion) := do
  if ← Eval.holds c l.test current then
    (← Eval.stmt c l.body current).next do
      let next ← if l.names.isEmpty then pure current else current.renewed l.names l.scope
      Eval.discardValue c l.update next
      return .again next
  else return .stop .normal

theorem iterate_round (c : Context) (l : Loop) (n : Nat) (current : Scope) :
    Comp.iterate (l.round c) n current = l.rounds c n current := by
  induction n generalizing current with
  | zero => rfl
  | succ n ih =>
      simp only [Comp.iterate, rounds, turn, bind_assoc]
      rw [round, bind_assoc]
      congr 1
      funext go
      cases go with
      | false => rfl
      | true =>
          simp only [if_true, bind_assoc, pure_bind]
          congr 1
          funext completion
          cases completion with
          | «break» | «return» v => rfl
          | normal | «continue» =>
              simp only [Completion.next, reopen, pure_bind]
              cases l.names.isEmpty <;> simp only [Bool.false_eq_true, if_true, if_false, bind_assoc, pure_bind, ih]

end Loop

/-- A loop is its opening and its rounds. -/
theorem Eval.stmt_for (c : Context) (init : ForInit) (test update : Option Expr) (body : Stmt) (span : Span)
    (scope : Scope) : stmt c (.for init test update body span) scope = (do
      let start ← scope.child
      let names ← forInit c init start
      Loop.rounds c ⟨test, update, body, names, scope⟩ c.rounds start) := by
  rw [stmt]
  congr 1
  funext start
  congr 1
  funext names
  exact Loop.iterate_round c ⟨test, update, body, names, scope⟩ c.rounds start

end FieldScript
