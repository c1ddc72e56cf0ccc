import FieldScript.Eval.Invoke
import FieldScript.Proofs.Eval.Courses
import FieldScript.Proofs.Eval.Links
import FieldScript.Proofs.Eval.Queries
import FieldScript.Settle.Tree

/-!
# Targets that are read and written

A modification reads a property and writes it: `++` and `--`, and the assignments with an operator. A member refers to a
property by the value of its object and the name that its key stands for. This reference is evaluated twice, in front of
the reading and in front of the writing.

* `link_modification`: what every modification of a member does, told with references.
* `modification_once`: the second evaluation is as good as none if it does nothing and comes to the same reference
  (`Modification.Steady`). This holds if object, key and value only look at the store (`Expr.isInert`).
* `calledObject_twice`: with a call in the object there are two calls.
-/

namespace FieldScript

/-! ## Expressions that only look -/

mutual

/-- Whether an expression can only look at the store: it makes no value of its own, calls nothing, changes nothing and
does not wait. A group of functions is made anew each time. -/
def Expr.isInert : Expr → Bool
  | .literal _ _ => true
  | .identifier name _ => !Global.isGroup name
  | .template _ exprs _ => areInert exprs
  | .member o k _ _ => o.isInert && k.isInert
  | .unary op e _ => op != .delete && e.isInert
  | .binary _ l r _ => l.isInert && r.isInert
  | .logical _ l r _ => l.isInert && r.isInert
  | .conditional test yes no _ => test.isInert && yes.isInert && no.isInert
  | .sequence exprs _ => areInert exprs
  | _ => false

def Key.isInert : Key → Bool
  | .computed e => e.isInert
  | _ => true

def areInert : List Expr → Bool
  | [] => true
  | e :: rest => e.isInert && areInert rest

end

/-- A computation that only looks at the store and does not wait. -/
def Comp.Inert {α : Type} (x : Comp α) : Prop := ∀ s, ∃ r, x s = .done r s

namespace Comp.Inert

variable {α β : Type}

theorem pure (a : α) : (Pure.pure a : Comp α).Inert := fun _ => ⟨.ok a, rfl⟩

theorem act {x : Act α} (h : x.Query) : (ofAct x).Inert := by
  intro s
  refine ⟨(x.run s).1, ?_⟩
  show Suspension.done (x.run s).1 (x.run s).2 = _
  rw [h s]

theorem bind {x : Comp α} {f : α → Comp β} (hx : x.Inert) (hf : ∀ a, (f a).Inert) : (x >>= f).Inert := by
  intro s
  obtain ⟨r, hr⟩ := hx s
  show ∃ r', (x s).bind f = .done r' s
  rw [hr]
  cases r with
  | ok a => exact hf a s
  | error halt => exact ⟨.error halt, rfl⟩

end Comp.Inert

theorem orUndefined_inert {x : Comp (Option Value)} (h : x.Inert) : (orUndefined x).Inert := h.bind fun _ => .pure _

namespace Eval

variable (c : Context) (scope : Scope)

mutual

theorem link_inert : ∀ e : Expr, e.isInert = true → (link c e scope).Inert
  | .literal lit _, _ => by
      rw [link]
      exact .pure _
  | .identifier name _, h => by
      rw [link]
      exact (Comp.Inert.act (c.lookup_query (by simpa [Expr.isInert] using h) scope)).bind fun _ => .pure _
  | .template parts exprs _, h => by
      rw [link]
      exact (texts_inert exprs h).bind fun _ => .pure _
  | .member o k optional _, h => by
      obtain ⟨ho, hk⟩ := Bool.and_eq_true_iff.1 h
      rw [link]
      refine (link_inert o ho).bind fun v? => ?_
      cases v? with
      | none => exact .pure _
      | some v =>
          dsimp only
          split
          · exact .pure _
          · exact (keyName_inert k hk).bind fun name => (Comp.Inert.act (v.get_query name)).bind fun _ => .pure _
  | .unary op e _, h => by
      obtain ⟨hop, he⟩ := Bool.and_eq_true_iff.1 h
      by_cases htype : op = .typeOf ∧ ∃ name ispan, e = .identifier name ispan
      · obtain ⟨rfl, name, ispan, rfl⟩ := htype
        rw [link]
        exact (Comp.Inert.act (c.typeOfName_query (by simpa [Expr.isInert] using he) scope)).bind fun _ => .pure _
      · rw [link_unary c scope _ (fun ht name ispan hname => htype ⟨ht, name, ispan, hname⟩) (by simpa using hop)]
        exact (orUndefined_inert (link_inert e he)).bind fun v =>
          (Comp.Inert.act (op.apply_query v)).bind fun _ => .pure _
  | .binary op l r _, h => by
      obtain ⟨hl, hr⟩ := Bool.and_eq_true_iff.1 h
      rw [link]
      exact (orUndefined_inert (link_inert l hl)).bind fun a => (orUndefined_inert (link_inert r hr)).bind fun b =>
        (Comp.Inert.act (op.apply_query a b)).bind fun _ => .pure _
  | .logical op l r _, h => by
      obtain ⟨hl, hr⟩ := Bool.and_eq_true_iff.1 h
      rw [link]
      refine (orUndefined_inert (link_inert l hl)).bind fun a => ?_
      split
      · exact .pure _
      · exact (orUndefined_inert (link_inert r hr)).bind fun _ => .pure _
  | .conditional test yes no _, h => by
      obtain ⟨hboth, hno⟩ := Bool.and_eq_true_iff.1 h
      obtain ⟨htest, hyes⟩ := Bool.and_eq_true_iff.1 hboth
      rw [link]
      refine (orUndefined_inert (link_inert test htest)).bind fun v => ?_
      split
      · exact (orUndefined_inert (link_inert yes hyes)).bind fun _ => .pure _
      · exact (orUndefined_inert (link_inert no hno)).bind fun _ => .pure _
  | .sequence exprs _, h => by
      rw [link]
      exact (last_inert exprs h).bind fun _ => .pure _

theorem keyName_inert : ∀ k : Key, k.isInert = true → (keyName c k scope).Inert
  | .name _, _ => by
      rw [keyName]
      exact .pure _
  | .literal _, _ => by
      rw [keyName]
      exact .pure _
  | .computed e, h => by
      rw [keyName]
      exact (orUndefined_inert (link_inert e h)).bind fun v => .act v.toText_query

theorem texts_inert : ∀ es : List Expr, areInert es = true → (texts c es scope).Inert
  | [], _ => by
      rw [texts]
      exact .pure _
  | e :: rest, h => by
      obtain ⟨he, hrest⟩ := Bool.and_eq_true_iff.1 h
      rw [texts]
      exact (orUndefined_inert (link_inert e he)).bind fun v => (Comp.Inert.act v.toText_query).bind fun _ =>
        (texts_inert rest hrest).bind fun _ => .pure _

theorem last_inert : ∀ es : List Expr, areInert es = true → (last c es scope).Inert
  | [], _ => by
      rw [last]
      exact .pure _
  | [e], h => by
      rw [last]
      exact orUndefined_inert (link_inert e (Bool.and_eq_true_iff.1 h).1)
  | e :: next :: rest, h => by
      obtain ⟨he, hrest⟩ := Bool.and_eq_true_iff.1 h
      rw [last]
      · exact (link_inert e he).bind fun _ => last_inert (next :: rest) hrest
      · nofun

end

end Eval

/-- A course of a computation that only looks is one step. -/
theorem Runs.of_inert {α : Type} {x : Comp α} {turns : List Turn} {r : Except Halt α} {s t : Store} (hx : x.Inert)
    (h : Runs (x s) turns r t) : x s = .done r s ∧ t = s := by
  obtain ⟨r', hr⟩ := hx s
  rw [hr] at h ⊢
  cases h
  exact ⟨rfl, rfl⟩

/-- A course with a result leads through a result of what comes first. -/
theorem Runs.bind_ok {α β : Type} {x : Comp α} {f : α → Comp β} {turns : List Turn} {b : β} {s t : Store}
    (h : Runs ((x >>= f) s) turns (.ok b) t) :
    ∃ a turns₁ turns₂ mid, Runs (x s) turns₁ (.ok a) mid ∧ Runs (f a mid) turns₂ (.ok b) t := by
  rcases Runs.bind_inv h with ⟨e, he, -⟩ | ⟨a, turns₁, turns₂, mid, -, hx, hf⟩
  · cases he
  · exact ⟨a, turns₁, turns₂, mid, hx, hf⟩

/-! ## References -/

/-- The property that a member refers to. Behind an optional link that met nothing there is none. -/
inductive Reference where
  | property (object : Value) (name : String)
  | brokenOff

/-- What the property holds. -/
def Reference.read : Reference → Act Value
  | .property v name => v.get name
  | .brokenOff => return .undefined

theorem Reference.read_query (p : Reference) : p.read.Query := by
  cases p with
  | property v name => exact v.get_query name
  | brokenOff => exact .pure _

/-- A change of a property that depends on what the property holds. -/
inductive Modification where
  | step (op : UpdateOp) (before : Bool)
  | binary (op : BinaryOp) (value : Expr)
  | logical (op : LogicalOp) (value : Expr)

namespace Modification

/-- The modification of a target as an expression. -/
def expr (target : Pattern) (span : Span) : Modification → Expr
  | .step op before => .update op before target span
  | .binary op e => .assign (.binary op) target e span
  | .logical op e => .assign (.logical op) target e span

def value? : Modification → Option Expr
  | .step _ _ => none
  | .binary _ e => some e
  | .logical _ e => some e

end Modification

namespace Eval

variable (c : Context) (o : Expr) (k : Key) (scope : Scope)

/-- Evaluates the object and the key of a member, each once. -/
def referenceOf : Comp Reference := do
  match ← link c o scope with
  | none => return .brokenOff
  | some v => return .property v (← keyName c k scope)

/-- Writes the property. The key behind a link that met nothing has not been evaluated. -/
def writeAt (v : Value) : Reference → Comp Unit
  | .property object name => object.set name v
  | .brokenOff => do Value.undefined.set (← keyName c k scope) v

/-- What a modification writes, if it does, and its result. -/
def outcomeOf (a : Value) : Modification → Comp (Option Value × Value)
  | .step op before => do
    let old ← a.toNumber
    return (some (.number (op.step old)), .number (if before then op.step old else old))
  | .binary op e => do
    let b ← orUndefined (link c e scope)
    let v ← op.apply a b
    return (some v, v)
  | .logical op e => do
    if op.isDecided a then return (none, a)
    else
      let v ← orUndefined (link c e scope)
      return (some v, v)

/-- A modification up to its writing, with the reference that it read. -/
def prepare (m : Modification) : Comp (Reference × Option Value × Value) := do
  let p ← referenceOf c o k scope
  let a ← p.read
  let (written, result) ← outcomeOf c scope a m
  return (p, written, result)

/-- A modification. Where it writes is told by what it read. -/
def modifyAt (m : Modification) (destination : Reference → Comp Reference) : Comp (Option Value) := do
  let (p, written, result) ← prepare c o k scope m
  match written with
  | none => return some result
  | some v =>
    writeAt c k scope v (← destination p)
    return some result

theorem current_member (span : Span) :
    current c (.member (.member o k false span)) scope = referenceOf c o k scope >>= fun p => Comp.ofAct p.read := by
  rw [current, link]
  simp only [referenceOf, orUndefined, bind_assoc]
  refine bind_congr fun v? => ?_
  cases v? with
  | none => rfl
  | some v =>
      simp only [Bool.false_and, Bool.false_eq_true, if_false, bind_assoc, pure_bind, Option.getD_some, bind_pure]
      rfl

theorem bindPattern_member (optional : Bool) (span : Span) (v : Value) :
    bindPattern c (.member (.member o k optional span)) v .assign scope =
      referenceOf c o k scope >>= writeAt c k scope v := by
  rw [bindPattern]
  simp only [referenceOf, orUndefined, bind_assoc]
  refine bind_congr fun v? => ?_
  cases v? with
  | none => rfl
  | some v => simp only [bind_assoc, pure_bind, Option.getD_some, writeAt]

/-- What a modification of a member does: object and key are evaluated where the member is read, and again where it is
written. -/
theorem link_modification (m : Modification) (inner span : Span) :
    link c (m.expr (.member (.member o k false inner)) span) scope =
      modifyAt c o k scope m fun _ => referenceOf c o k scope := by
  cases m with
  | step op before =>
      simp only [Modification.expr, link, current_member, bindPattern_member, modifyAt, prepare, outcomeOf, bind_assoc,
        pure_bind]
      rfl
  | binary op e =>
      simp only [Modification.expr, link, current_member, bindPattern_member, modifyAt, prepare, outcomeOf, bind_assoc,
        pure_bind]
      rfl
  | logical op e =>
      simp only [Modification.expr, link, current_member, bindPattern_member, modifyAt, prepare, outcomeOf, bind_assoc,
        pure_bind]
      refine bind_congr fun p => bind_congr fun a => ?_
      split
      · rfl
      · simp only [bind_assoc, pure_bind]

/-! ## Targets that stand still -/

/-- Evaluating the value leaves the reference of a member as it is. -/
def KeepsReference (s : Store) (e : Expr) : Prop :=
  ∀ p, referenceOf c o k scope s = .done (.ok p) s → ∀ turns v t, Runs (link c e scope s) turns (.ok v) t →
    referenceOf c o k scope t = .done (.ok p) t

/-- At the time of writing, evaluating object and key again does nothing and leads to the reference that was read. -/
def Steady (s : Store) (m : Modification) : Prop :=
  ∀ turns p v result t, Runs (prepare c o k scope m s) turns (.ok (p, some v, result)) t →
    referenceOf c o k scope t = .done (.ok p) t

variable {c o k scope}

theorem referenceOf_inert (ho : o.isInert = true) (hk : k.isInert = true) : (referenceOf c o k scope).Inert := by
  refine (link_inert c scope o ho).bind fun v? => ?_
  cases v? with
  | none => exact .pure _
  | some v => exact (keyName_inert c scope k hk).bind fun _ => .pure _

theorem keepsReference_of_isInert {s : Store} {e : Expr} (he : e.isInert = true) : KeepsReference c o k scope s e := by
  intro p href turns v t hrun
  obtain ⟨-, rfl⟩ := hrun.of_inert (link_inert c scope e he)
  exact href

/-- If a modification writes, the store is the one behind its value. -/
theorem outcomeOf_reference {m : Modification} {s t : Store} {a v result : Value} {p : Reference} {turns : List Turn}
    (hvalue : ∀ e, m.value? = some e → KeepsReference c o k scope s e)
    (href : referenceOf c o k scope s = .done (.ok p) s)
    (h : Runs (outcomeOf c scope a m s) turns (.ok (some v, result)) t) :
    referenceOf c o k scope t = .done (.ok p) t := by
  have hassigned : ∀ e (f : Value → Act Value), (∀ b, (f b).Query) → KeepsReference c o k scope s e →
      Runs ((orUndefined (link c e scope) >>= fun b => Comp.ofAct (f b) >>= fun v => pure (some v, v)) s) turns
        (.ok (some v, result)) t → referenceOf c o k scope t = .done (.ok p) t := by
    intro e f hf he hrun
    obtain ⟨b, turns₁, turns₂, mid, hvalue, hrest⟩ := hrun.bind_ok
    obtain ⟨b?, turns₃, turns₄, mid', hlink, hpure⟩ := hvalue.bind_ok
    cases hpure
    obtain ⟨-, rfl⟩ := hrest.of_inert ((Comp.Inert.act (hf _)).bind fun _ => .pure _)
    exact he p href _ _ _ hlink
  cases m with
  | step op before =>
      obtain ⟨-, rfl⟩ := h.of_inert ((Comp.Inert.act a.toNumber_query).bind fun _ => .pure _)
      exact href
  | binary op e => exact hassigned e (op.apply a) (op.apply_query a) (hvalue e rfl) h
  | logical op e =>
      simp only [outcomeOf] at h
      split at h
      · cases h
      · exact hassigned e pure (fun _ => .pure _) (hvalue e rfl) h

/-- Object and key that only look lead to one reference, unless the value changes it. -/
theorem steady_of_isInert {m : Modification} {s : Store} (ho : o.isInert = true) (hk : k.isInert = true)
    (hvalue : ∀ e, m.value? = some e → KeepsReference c o k scope s e) : Steady c o k scope s m := by
  intro turns p v result t hrun
  obtain ⟨p', turns₁, turns₂, mid, href, hbehind⟩ := hrun.bind_ok
  obtain ⟨href', rfl⟩ := href.of_inert (referenceOf_inert ho hk)
  obtain ⟨a, turns₃, turns₄, mid', hread, hrest⟩ := hbehind.bind_ok
  obtain ⟨-, rfl⟩ := hread.of_inert (.act p'.read_query)
  obtain ⟨⟨written, result'⟩, turns₅, turns₆, mid'', houtcome, hpure⟩ := hrest.bind_ok
  cases hpure
  exact outcomeOf_reference hvalue href' houtcome

/-- A modification whose target stands still writes where it has read. -/
theorem modifyAt_of_steady {m : Modification} {s : Store} (h : Steady c o k scope s m) :
    modifyAt c o k scope m (fun _ => referenceOf c o k scope) s = modifyAt c o k scope m pure s := by
  refine Runs.bind_congr fun turns x t hrun => ?_
  obtain ⟨p, written, result⟩ := x
  cases written with
  | none => rfl
  | some v =>
      show ((referenceOf c o k scope t).bind _ : Suspension _) = _
      rw [h turns p v result t hrun]
      rfl

end Eval

/-- A modification of a member evaluates object and key where it reads and again where it writes. It is the same as one
that evaluates them once and writes the property that it has read if, at the time of writing, evaluating them does
nothing and leads to the same reference. This is so for an object and a key that only look at the store and a value that
leaves the reference as it is, such as one that only looks. -/
theorem modification_once (m : Modification) (c : Context) (o : Expr) (k : Key) (inner span : Span) (scope : Scope)
    (s : Store) :
    Eval.link c (m.expr (.member (.member o k false inner)) span) scope =
        Eval.modifyAt c o k scope m (fun _ => Eval.referenceOf c o k scope) ∧
      (Eval.Steady c o k scope s m →
        Eval.link c (m.expr (.member (.member o k false inner)) span) scope s = Eval.modifyAt c o k scope m pure s) ∧
      (o.isInert = true → k.isInert = true →
        (∀ e, m.value? = some e → e.isInert = true ∨ Eval.KeepsReference c o k scope s e) →
          Eval.Steady c o k scope s m) := by
  refine ⟨Eval.link_modification c o k scope m inner span, fun h => ?_, fun ho hk hvalue => ?_⟩
  · rw [Eval.link_modification]
    exact Eval.modifyAt_of_steady h
  · exact Eval.steady_of_isInert ho hk fun e he => (hvalue e he).elim Eval.keepsReference_of_isInert id

/-- The assignment `get('a').x += 'b'`. -/
def calledObject : Expr :=
  let s := Span.point 0
  let text (raw t : String) := Expr.literal ⟨.string t, raw⟩ s
  let get := Expr.call (.identifier "get" s) [.expr (text "'a'" "a")] false s
  .assign (.binary .add) (.member (.member get (.name ⟨"x", s⟩) false s)) (text "'b'" "b") s

/-- Its object is evaluated twice: the answer is right, but the external function is called a second time. -/
theorem calledObject_twice :
    ((settle calledObject ⟨[("get", false)]⟩ []).toOption.bind fun block =>
      (invoke defaultFuel ⟨[("get", false)]⟩
        ⟨0, [("get", ⟨false, fun _ _ => ⟨.ok (.object [("x", .string "a")]), 0⟩⟩)]⟩ [] block
        (.object []) Journal.empty).toOption).map (fun i =>
          ((match i.answer with
            | .ok (.string t) => some t
            | _ => none), i.journal.calls)) =
      some (some "ab", 2) := by
  decide +kernel

end FieldScript
