import FieldScript.Eval.Invoke
import FieldScript.Proofs.Eval.Courses
import FieldScript.Proofs.Settle.KeptCalls

/-!
# Positions that evaluation may skip

Besides the positions that are visited lazily, there are two that evaluation may never reach: the value of a
logical assignment, and the keys and arguments of a chain behind an optional link. They are visited like any
other position, so a call in them that is the object of a member access ends up in a temporary in front of the
statement. All other calls of the position stay in it, and evaluation skips them together with the position.
-/

namespace FieldScript.Settle

open Walk (Ensures)

/-- A part of a tree that becomes another one: its calls are in the new part or in declarations in front. -/
def MovesOut (before : Sites) (new : List Stmt) (after : Sites) : Prop :=
  Kept before (Sites.ofStmts new + after)

variable {α β γ : Type} {before before' : Sites} {out : Outside} {s : State}

/-- What two steps one behind the other leave, each on its own. -/
theorem Stays.then {x : Walk α} {y : Walk β} {k : α → β → Walk γ} {after : α → Sites} {after' : β → Sites}
    {post : γ → State → Prop} (hx : Stays x before 0 after) (hy : Stays y before' 0 after')
    (hk : ∀ a b s' new new', s'.hoisted = s.hoisted ++ (new ++ new') → MovesOut before new (after a) →
      MovesOut before' new' (after' b) → Ensures (k a b) out s' post) :
    Ensures (x >>= fun a => y >>= fun b => k a b) out s post := by
  refine Ensures.bind (hx out s) ?_
  rintro a s₁ ⟨new, hnew, hkept⟩
  refine Ensures.bind (hy out s₁) ?_
  rintro b s₂ ⟨new', hnew', hkept'⟩
  rw [zero_add] at hkept hkept'
  exact hk a b s₂ new new' (by rw [hnew', hnew, List.append_assoc]) hkept hkept'

theorem assign_moves (op : AssignOp) (target : Pattern) (value : Expr) (span : Span) :
    Ensures (expr (.assign op target value span)) out s fun r s' => ∃ target' value' new new',
      r = (.assign op target' value' span, false) ∧ s'.hoisted = s.hoisted ++ (new ++ new') ∧
        MovesOut (Sites.ofPattern target) new (Sites.ofPattern target') ∧
          MovesOut (Sites.ofExpr value) new' (Sites.ofExpr value') := by
  unfold expr
  refine (pattern_stays target).then (inPlace_stays (expr_stays value)) ?_
  intro target' value' s' new new' hhoisted htarget hvalue
  exact Ensures.pure ⟨target', value', new, new', rfl, hhoisted, htarget, hvalue⟩

theorem member_moves (o : Expr) (k : Key) (optional : Bool) (span : Span) :
    Ensures (expr (.member o k optional span)) out s fun r s' => ∃ o' k' new new',
      r = (.member o' k' optional span, false) ∧ s'.hoisted = s.hoisted ++ (new ++ new') ∧
        MovesOut (Sites.ofExpr o) new (Sites.ofExpr o') ∧ MovesOut (Sites.ofKey k) new' (Sites.ofKey k') := by
  unfold expr
  refine (asObject_stays (expr_stays o)).then (key_stays k) ?_
  intro o' k' s' new new' hhoisted ho hk
  exact Ensures.pure ⟨o', k', new, new', rfl, hhoisted, ho, hk⟩

theorem call_moves (callee : Expr) (args : List Item) (optional : Bool) (span : Span) :
    Ensures (expr (.call callee args optional span)) out s fun r s' => ∃ callee' args' new new',
      (r.1 = .call callee' args' optional span ∨ r.1 = joinAll (.call callee' args' optional span)) ∧
        s'.hoisted = s.hoisted ++ (new ++ new') ∧
          MovesOut (Sites.ofExpr callee) new (Sites.ofExpr callee') ∧
            MovesOut (Sites.ofItems args) new' (Sites.ofItems args') := by
  unfold expr
  refine Ensures.bind (M := fun _ s₁ => s = s₁) (callsAsync_ensures rfl) ?_
  rintro capability _ rfl
  refine (inPlace_stays (expr_stays callee)).then (items_stays args) ?_
  intro callee' args' s' new new' hhoisted hcallee hargs
  exact Ensures.ite
    (fun _ => Ensures.pure ⟨callee', args', new, new', .inr rfl, hhoisted, hcallee, hargs⟩)
    fun _ => Ensures.pure ⟨callee', args', new, new', .inl rfl, hhoisted, hcallee, hargs⟩

/-- The positions that evaluation may skip keep their calls, apart from those that the visit moves into
declarations in front, and evaluation makes the calls that are left only if it gets there. A logical
assignment whose target decides does nothing but evaluate the target, and a chain does nothing behind the
object of an optional link that is null or undefined. So if a position needs no declarations, all of its calls
are skipped together with it. -/
theorem skipped_positions_make_no_calls (out : Outside) (s : State) (c : Context) (scope : Scope)
    (store : Store) :
    (∀ op target value span, Ensures (expr (.assign (.logical op) target value span)) out s fun r s' =>
      ∃ target' value' new new', r = (.assign (.logical op) target' value' span, false) ∧
        s'.hoisted = s.hoisted ++ (new ++ new') ∧
          MovesOut (Sites.ofPattern target) new (Sites.ofPattern target') ∧
            MovesOut (Sites.ofExpr value) new' (Sites.ofExpr value') ∧
              Stops (Eval.current c target' scope store) (Eval.link c r.1 scope store)
                fun a => if op.isDecided a then some (some a) else none) ∧
    (∀ o k optional span, Ensures (expr (.member o k optional span)) out s fun r s' =>
      ∃ o' k' new new', r = (.member o' k' optional span, false) ∧ s'.hoisted = s.hoisted ++ (new ++ new') ∧
        MovesOut (Sites.ofExpr o) new (Sites.ofExpr o') ∧ MovesOut (Sites.ofKey k) new' (Sites.ofKey k') ∧
          ∀ start, r.1.HasOptionalLink start →
            Stops (Eval.link c start scope store) (Eval.link c r.1 scope store) brokenOff) ∧
    (∀ callee args optional span, Ensures (expr (.call callee args optional span)) out s fun r s' =>
      ∃ callee' args' new new', let call := Expr.call callee' args' optional span
        (r.1 = call ∨ r.1 = joinAll call) ∧ s'.hoisted = s.hoisted ++ (new ++ new') ∧
          MovesOut (Sites.ofExpr callee) new (Sites.ofExpr callee') ∧
            MovesOut (Sites.ofItems args) new' (Sites.ofItems args') ∧
              ∀ start, call.HasOptionalLink start →
                Stops (Eval.link c start scope store) (Eval.link c call scope store) brokenOff) := by
  refine ⟨fun op target value span => ?_, fun o k optional span => ?_, fun callee args optional span => ?_⟩
  · refine (assign_moves (.logical op) target value span).mono ?_
    rintro r s' ⟨target', value', new, new', rfl, hhoisted, htarget, hvalue⟩
    exact ⟨target', value', new, new', rfl, hhoisted, htarget, hvalue, Eval.stops_logical op target' value' span⟩
  · refine (member_moves o k optional span).mono ?_
    rintro r s' ⟨o', k', new, new', rfl, hhoisted, ho, hk⟩
    exact ⟨o', k', new, new', rfl, hhoisted, ho, hk, fun start hlink => Eval.stops_chain hlink⟩
  · refine (call_moves callee args optional span).mono ?_
    rintro r s' ⟨callee', args', new, new', hr, hhoisted, hcallee, hargs⟩
    exact ⟨callee', args', new, new', hr, hhoisted, hcallee, hargs, fun start hlink => Eval.stops_chain hlink⟩

/-- The assignment `x ??= get().y`. -/
def skippedValue : Expr :=
  let s := Span.point 0
  let get := Expr.call (.identifier "get" s) [] false s
  .assign (.logical .nullish) (.ident ⟨"x", s⟩) (.member get (.name ⟨"y", s⟩) false s) s

/-- One asynchronous capability. -/
def oneAsync : Capabilities := ⟨[("get", true)]⟩

/-- A function `get` that answers at once. -/
def answering (answer : Json) : Api := ⟨0, [("get", ⟨true, fun _ _ => ⟨.ok answer, 0⟩⟩)]⟩

/-- The text that an invocation answers, and how many external calls it makes. -/
def textAndCalls (i : Invocation) : Option String × Nat :=
  (match i.answer with
    | .ok (.string t) => some t
    | _ => none, i.journal.calls)

/-- The target of the assignment has a value, which is the answer, but the temporary in front makes the
call. -/
theorem skippedValue_calls :
    (skippedValue.validate oneAsync ["x"] false).toOption = some () ∧
      ((settle skippedValue oneAsync ["x"]).toOption.bind fun block =>
        (invoke defaultFuel oneAsync (answering (.object [("y", .string "new")])) ["x"] block
          (.object [("x", .string "set")]) Journal.empty).toOption).map textAndCalls =
            some (some "set", 1) := by
  constructor
  · decide +kernel
  · decide +kernel

end FieldScript.Settle
