import FieldScript.Proofs.Settle.Walk
import FieldScript.Proofs.Syntax.OwnAwaits

/-!
# Functions are marked as asynchronous if they await

The walk notes whether the function at hand has got an `await`. What it notes agrees with the trees that it
makes: a step turns the mark on if and only if its result, or a declaration that it leaves, has an `await` of
its own.

## Strategy

* `Node.Legal`: no `await` among the parameters of a function, and the mark of a function agrees with its
  body, apart from functions that were written as asynchronous.
* `Marks`: what visiting a part of a function does to the mark. A step may use trees that were visited
  before it, and whether these have an `await` of their own is an argument.
* There is one rule for each kind of position.
-/

namespace FieldScript

/-- A function awaits in its body only, and it is asynchronous if it awaits or was written so. -/
def Node.Legal (written : Span → Prop) : Node → Prop
  | .expr (.arrow ps body isAsync span) =>
    OwnAwait.ofPatterns ps = false ∧ (OwnAwait.ofArrowBody body = true → isAsync = true) ∧
      (isAsync = true → OwnAwait.ofArrowBody body = true ∨ written span)
  | .expr (.function _) | .stmt (.function _) => False
  | _ => True

/-- A node as it is written: arrow functions that are asynchronous are known to be so. -/
def Node.Plain (written : Span → Prop) : Node → Prop
  | .expr (.arrow _ _ isAsync span) => isAsync = true → written span
  | .expr (.function _) | .stmt (.function _) => False
  | _ => True

/-- A node that is no function, or a function that is not asynchronous and does not await. -/
def Node.isSynchronous : Node → Bool
  | .expr (.arrow ps body isAsync _) =>
    !OwnAwait.ofPatterns ps && !OwnAwait.ofArrowBody body && !isAsync
  | .expr (.function _) | .stmt (.function _) => false
  | _ => true

theorem Node.legal_of_isSynchronous {written : Span → Prop} {n : Node} (h : n.isSynchronous = true) : n.Legal written := by
  cases n with
  | expr e =>
      cases e with
      | arrow ps body isAsync span =>
          simp only [Node.isSynchronous, Bool.and_eq_true, Bool.not_eq_true'] at h
          exact ⟨h.1.1, by simp [h.1.2], by simp [h.2]⟩
      | function fn => cases h
      | _ => exact trivial
  | pattern p => exact trivial
  | stmt s =>
      cases s with
      | function fn => cases h
      | _ => exact trivial

namespace Settle

open Walk (Ensures)

/-- All nodes are legal. -/
def Legal (written : Span → Prop) (ns : List Node) : Prop := ∀ n ∈ ns, n.Legal written

namespace Legal

variable {written : Span → Prop} {n : Node} {ns ns' : List Node}

theorem nil : Legal written [] := by simp [Legal]

theorem cons (hn : n.Legal written) (hns : Legal written ns) : Legal written (n :: ns) :=
  List.forall_mem_cons.2 ⟨hn, hns⟩

theorem append (hns : Legal written ns) (hns' : Legal written ns') : Legal written (ns ++ ns') :=
  List.forall_mem_append.2 ⟨hns, hns'⟩

end Legal

variable {α β : Type} {written : Span → Prop} {quiet used : Bool}

/-! ## Steps -/

/-- What a step leaves: declarations that each have an `await`, and a tree. -/
structure Leaves (written : Span → Prop) (s s' : State) (new : List Stmt) (own : Bool) (nodes : List Node) :
    Prop where
  hoisted : s'.hoisted = s.hoisted ++ new
  awaits : s'.awaits = (s.awaits || (OwnAwait.ofStmts new || own))
  each : ∀ d ∈ new, OwnAwait.ofStmt d = true
  front : Legal written (Node.ofStmts new)
  nodes : Legal written nodes

/-- What a step leaves whose declarations are collected. -/
structure Collected (written : Span → Prop) (s s' : State) (decls : List Stmt) (own : Bool)
    (nodes : List Node) : Prop where
  hoisted : s'.hoisted = s.hoisted
  awaits : s'.awaits = (s.awaits || (OwnAwait.ofStmts decls || own))
  each : ∀ d ∈ decls, OwnAwait.ofStmt d = true
  front : Legal written (Node.ofStmts decls)
  nodes : Legal written nodes

/-- A step that turns the mark on if its result has an `await`, and leaves no declarations if it is quiet. It
starts with the mark on if the trees that it uses have an `await`. -/
def Marks (written : Span → Prop) (quiet : Bool) (step : Walk α) (used : Bool) (own : α → Bool)
    (nodes : α → List Node) : Prop :=
  ∀ out s, (used = true → s.awaits = true) → Ensures step out s fun a s' =>
    (used = true → own a = true) ∧ ∃ new, (quiet = true → new = []) ∧ Leaves written s s' new (own a) (nodes a)

namespace Marks

variable {x : Walk α} {f : α → Walk β} {own : α → Bool} {own' : β → Bool} {nodes : α → List Node}
  {nodes' : β → List Node}

/-- A tree that is put together from trees visited before. -/
theorem made {a : α} (hown : own a = used) (hnodes : Legal written (nodes a)) :
    Marks written quiet (Pure.pure a) used own nodes := by
  intro out s hs
  refine Ensures.pure ⟨fun h => hown.trans h, [], fun _ => rfl, ?_⟩
  refine ⟨by simp, ?_, by simp, Legal.nil, hnodes⟩
  rw [OwnAwait.ofStmts, Bool.false_or, hown]
  cases hused : used with
  | false => rw [Bool.or_false]
  | true => rw [hs hused, Bool.true_or]

/-- A step may use some of the trees that the steps together use. -/
theorem bind_using {used₁ : Bool} (hx : Marks written quiet x used₁ own nodes)
    (husing : used₁ = true → used = true)
    (hf : ∀ a, (used₁ = true → own a = true) → Legal written (nodes a) →
      Marks written quiet (f a) (used || own a) own' nodes') :
    Marks written quiet (x >>= f) used own' nodes' := by
  intro out s hs
  refine Ensures.bind (hx out s fun h => hs (husing h)) ?_
  rintro a s₁ ⟨hused₁, new, hquiet, hleaves⟩
  have hstart : (used || own a) = true → s₁.awaits = true := by
    intro h
    rw [hleaves.awaits]
    rcases Bool.or_eq_true_iff.1 h with h | h
    · rw [hs h, Bool.true_or]
    · rw [h, Bool.or_true, Bool.or_true]
  refine (hf a hused₁ hleaves.nodes out s₁ hstart).mono ?_
  rintro b s₂ ⟨hused, new', hquiet', hleaves'⟩
  refine ⟨fun h => hused (by rw [h, Bool.true_or]), new ++ new',
    fun h => by rw [hquiet h, hquiet' h, List.append_nil], ?_, ?_, ?_, ?_, hleaves'.nodes⟩
  · rw [hleaves'.hoisted, hleaves.hoisted, List.append_assoc]
  · -- an `await` of the first tree is one of the second
    have habsorb : (own a || own' b) = own' b := by
      cases hown : own a with
      | false => rw [Bool.false_or]
      | true => rw [hused (by rw [hown, Bool.or_true]), Bool.or_true]
    rw [hleaves'.awaits, hleaves.awaits, OwnAwait.ofStmts_append, ← habsorb]
    cases s.awaits <;> cases OwnAwait.ofStmts new <;> cases own a <;> simp
  · exact List.forall_mem_append.2 ⟨hleaves.each, hleaves'.each⟩
  · rw [Node.ofStmts_append]
    exact hleaves.front.append hleaves'.front

theorem bind (hx : Marks written quiet x false own nodes)
    (hf : ∀ a, Legal written (nodes a) → Marks written quiet (f a) (used || own a) own' nodes') :
    Marks written quiet (x >>= f) used own' nodes' :=
  hx.bind_using (fun h => nomatch h) fun a _ => hf a

/-- A step that touches neither the mark nor the declarations. -/
theorem skip (hx : ∀ out s, Ensures x out s fun _ s' => s'.hoisted = s.hoisted ∧ s'.awaits = s.awaits)
    (hf : ∀ a, Marks written quiet (f a) used own' nodes') :
    Marks written quiet (x >>= f) used own' nodes' := by
  intro out s hs
  refine Ensures.bind (hx out s) ?_
  rintro a s₁ ⟨hhoisted, hawaits⟩
  refine (hf a out s₁ fun h => hawaits.trans (hs h)).mono ?_
  rintro b s₂ ⟨hused, new, hquiet, hleaves⟩
  exact ⟨hused, new, hquiet, hleaves.hoisted.trans (by rw [hhoisted]), hleaves.awaits.trans (by rw [hawaits]),
    hleaves.each, hleaves.front, hleaves.nodes⟩

theorem ite {c : Prop} [Decidable c] {y : Walk α} (hx : c → Marks written quiet x used own nodes)
    (hy : ¬c → Marks written quiet y used own nodes) :
    Marks written quiet (if c then x else y) used own nodes :=
  fun out s hs => Ensures.ite (fun hc => hx hc out s hs) fun hc => hy hc out s hs

theorem loud (hx : Marks written true x used own nodes) : Marks written quiet x used own nodes := by
  intro out s hs
  refine (hx out s hs).mono ?_
  rintro a s' ⟨hused, new, hquiet, hleaves⟩
  exact ⟨hused, new, fun _ => hquiet rfl, hleaves⟩

theorem inScope (hx : Marks written quiet x used own nodes) :
    Marks written quiet (Settle.inScope x) used own nodes := by
  intro out s hs
  refine inScope_ensures ((hx out { s with locals := s.locals.push } hs).mono ?_)
  rintro a s' ⟨hused, new, hquiet, hleaves⟩
  exact ⟨hused, new, hquiet, hleaves.hoisted, hleaves.awaits, hleaves.each, hleaves.front, hleaves.nodes⟩

theorem collecting (hx : Marks written false x false own nodes) (out : Outside) (s : State) :
    Ensures (Settle.collecting x) out s fun r s' => Collected written s s' r.2 (own r.1) (nodes r.1) := by
  refine collecting_ensures ((hx out { s with hoisted := [] } nofun).mono ?_)
  rintro a s' ⟨-, new, -, hleaves⟩
  have hall : s'.hoisted = new := hleaves.hoisted
  show Collected written s { s' with hoisted := s.hoisted } s'.hoisted (own a) (nodes a)
  rw [hall]
  exact ⟨rfl, hleaves.awaits, hleaves.each, hleaves.front, hleaves.nodes⟩

/-- The same as a step that leaves no declarations. -/
theorem collected (hx : Marks written false x false own nodes) :
    Marks written quiet (Settle.collecting x) false (fun r => OwnAwait.ofStmts r.2 || own r.1)
      fun r => Node.ofStmts r.2 ++ nodes r.1 := by
  intro out s _
  refine (hx.collecting out s).mono ?_
  rintro r s' hc
  refine ⟨nofun, [], fun _ => rfl, by rw [hc.hoisted, List.append_nil], ?_, by simp, .nil, ?_⟩
  · rw [hc.awaits, OwnAwait.ofStmts, Bool.false_or]
  · exact hc.front.append hc.nodes

end Marks

/-! ## Positions -/

/-- Visiting an expression marks the function as it should. -/
abbrev Visits (written : Span → Prop) (visited : Visited) : Prop :=
  Marks written false visited false (fun r => OwnAwait.ofExpr r.1) fun r => Node.ofExpr r.1

theorem inPlace_marks {visited : Visited} (h : Visits written visited) :
    Marks written false (inPlace visited) false OwnAwait.ofExpr Node.ofExpr := by
  intro out s hs
  refine inPlace_ensures (h out s hs) ?_ fun e s' hleaves => hleaves
  rintro e s' ⟨-, new, -, hleaves⟩
  refine ⟨nofun, new, nofun, hleaves.hoisted, ?_, hleaves.each, hleaves.front, .cons trivial hleaves.nodes⟩
  rw [awaited, OwnAwait.ofExpr, Bool.or_true, Bool.or_true]

theorem temporaryStmt_await (n : Nat) (e : Expr) : OwnAwait.ofStmt (temporaryStmt n e) = true := by
  simp [temporaryStmt, declareStmt, awaited]

theorem temporaryStmt_legal (n : Nat) {e : Expr} (h : Legal written (Node.ofExpr e)) :
    Legal written (Node.ofStmt (temporaryStmt n e)) :=
  .cons trivial (.append (.cons trivial .nil) (.append (.cons trivial h) .nil))

theorem asObject_marks {visited : Visited} (h : Visits written visited) :
    Marks written false (asObject visited) false OwnAwait.ofExpr Node.ofExpr := by
  intro out s hs
  refine asObject_ensures (h out s hs) ?_ fun e s' hleaves => hleaves
  rintro e s' ⟨-, new, -, hleaves⟩
  refine ⟨nofun, new ++ [temporaryStmt s'.temporaries e], nofun, ?_, ?_, ?_, ?_, .cons trivial .nil⟩
  · show s'.hoisted ++ _ = _
    rw [hleaves.hoisted, List.append_assoc]
  · rw [OwnAwait.ofStmts_append, OwnAwait.ofStmts, temporaryStmt_await, Bool.true_or, Bool.or_true,
      Bool.true_or, Bool.or_true]
  · refine List.forall_mem_append.2 ⟨hleaves.each, fun d hd => ?_⟩
    rw [List.mem_singleton.1 hd]
    exact temporaryStmt_await _ e
  · rw [Node.ofStmts_append]
    exact hleaves.front.append ((temporaryStmt_legal _ hleaves.nodes).append .nil)

theorem returning_await (decls : List Stmt) (e : Expr) :
    OwnAwait.ofStmts (decls ++ [returning e]) = (OwnAwait.ofStmts decls || OwnAwait.ofExpr e) := by
  rw [OwnAwait.ofStmts_append, OwnAwait.ofStmts, OwnAwait.ofStmts, returning, OwnAwait.ofStmt,
    OwnAwait.ofOption, Bool.or_false]

theorem returning_legal {decls : List Stmt} {e : Expr} (hdecls : Legal written (Node.ofStmts decls))
    (he : Legal written (Node.ofExpr e)) : Legal written (Node.ofStmts (decls ++ [returning e])) := by
  rw [Node.ofStmts_append]
  exact hdecls.append (.append (.cons trivial he) .nil)

/-- A function around declarations awaits, since each of them does. -/
theorem thunk_legal {decls : List Stmt} {e : Expr} (hne : decls ≠ [])
    (heach : ∀ d ∈ decls, OwnAwait.ofStmt d = true) (hdecls : Legal written (Node.ofStmts decls))
    (he : Legal written (Node.ofExpr e)) : Legal written (Node.ofExpr (thunk decls e)) := by
  refine .cons trivial (.cons trivial (.append (.cons ⟨rfl, fun _ => rfl, fun _ => .inl ?_⟩ ?_) .nil))
  · rw [OwnAwait.ofArrowBody, OwnAwait.ofBlock, returning_await, OwnAwait.ofStmts_of_forall heach hne,
      Bool.true_or]
  · exact .append .nil (returning_legal hdecls he)

/-- A step that leaves no declarations and marks the function as its result says. -/
theorem Leaves.still {s s' : State} {own : Bool} {nodes : List Node} (hhoisted : s'.hoisted = s.hoisted)
    (hawaits : s'.awaits = (s.awaits || own)) (hnodes : Legal written nodes) :
    (false = true → own = true) ∧ ∃ new, (quiet = true → new = []) ∧ Leaves written s s' new own nodes :=
  ⟨nofun, [], fun _ => rfl, by rw [hhoisted, List.append_nil], by rw [hawaits, OwnAwait.ofStmts, Bool.false_or],
    by simp, .nil, hnodes⟩

theorem lazily_marks {visited : Visited} (h : Visits written visited) :
    Marks written true (lazily visited) false OwnAwait.ofExpr Node.ofExpr := by
  intro out s hs
  unfold lazily
  refine Ensures.bind ((inPlace_marks h).collecting out s) ?_
  rintro ⟨e, decls⟩ s' hc
  refine Ensures.ite (fun hnone => ?_) fun hsome => ?_
  · have hawaits := hc.awaits
    rw [List.isEmpty_iff.1 hnone, OwnAwait.ofStmts, Bool.false_or] at hawaits
    exact Leaves.still hc.hoisted hawaits hc.nodes
  · have hne : decls ≠ [] := fun hnil => hsome (List.isEmpty_iff.2 hnil)
    refine Ensures.bind (M := fun _ s₁ => s₁ = { s' with awaits := true }) rfl ?_
    rintro _ s₁ rfl
    refine Ensures.pure (Leaves.still hc.hoisted ?_ (thunk_legal hne hc.each hc.front hc.nodes))
    rw [thunk, awaited, OwnAwait.ofExpr, Bool.or_true]

theorem placed_marks {step : Walk Stmt} (h : Marks written false step false OwnAwait.ofStmt Node.ofStmt) :
    Marks written true (placed step) false OwnAwait.ofStmts Node.ofStmts := by
  intro out s hs
  refine Ensures.bind (h.collecting out s) ?_
  rintro ⟨stmt, decls⟩ s' hc
  refine Ensures.pure (Leaves.still hc.hoisted ?_ ?_)
  · rw [hc.awaits, OwnAwait.ofStmts_append, OwnAwait.ofStmts, OwnAwait.ofStmts, Bool.or_false]
  · rw [Node.ofStmts_append]
    exact hc.front.append (hc.nodes.append .nil)

theorem ofStmt_bodyOf_await (body : Stmt) (outs : List Stmt) :
    OwnAwait.ofStmt (bodyOf body outs) = OwnAwait.ofStmts outs := by
  unfold bodyOf
  split
  · rw [OwnAwait.ofStmts, OwnAwait.ofStmts, Bool.or_false]
  · rw [OwnAwait.ofStmt, OwnAwait.ofBlock]

theorem bodyOf_legal (body : Stmt) {outs : List Stmt} (h : Legal written (Node.ofStmts outs)) :
    Legal written (Node.ofStmt (bodyOf body outs)) := by
  unfold bodyOf
  split
  · rwa [Node.ofStmts, Node.ofStmts, List.append_nil] at h
  · exact .cons trivial h

/-! ## Functions -/

theorem ofArrowBody_withMoved_await (moved : List Stmt) (body : ArrowBody) (span : Span) :
    OwnAwait.ofArrowBody (withMoved moved body span) =
      (OwnAwait.ofStmts moved || OwnAwait.ofArrowBody body) := by
  unfold withMoved
  cases moved with
  | nil => rw [OwnAwait.ofStmts, Bool.false_or]; rfl
  | cons d more =>
      cases body with
      | expr e => exact returning_await (d :: more) e
      | block b =>
          obtain ⟨stmts, bspan⟩ := b
          exact OwnAwait.ofStmts_append (d :: more) stmts

theorem withMoved_legal {moved : List Stmt} {body : ArrowBody} (span : Span)
    (hmoved : Legal written (Node.ofStmts moved)) (hbody : Legal written (Node.ofArrowBody body)) :
    Legal written (Node.ofArrowBody (withMoved moved body span)) := by
  unfold withMoved
  cases moved with
  | nil => exact hbody
  | cons d more =>
      cases body with
      | expr e => exact returning_legal hmoved hbody
      | block b =>
          obtain ⟨stmts, bspan⟩ := b
          show Legal written (Node.ofStmts ((d :: more) ++ stmts))
          rw [Node.ofStmts_append]
          exact hmoved.append hbody

theorem exprBody_marks {visited : Visited} (bare : Bool) (span : Span) (h : Visits written visited) :
    Marks written true (exprBody bare visited span) false OwnAwait.ofArrowBody Node.ofArrowBody := by
  intro out s hs
  unfold exprBody
  refine Ensures.bind ((inPlace_marks h).collecting out s) ?_
  rintro ⟨e, decls⟩ s' hc
  refine Ensures.ite (fun _ => ?_) fun hstays => ?_
  · refine Ensures.pure (Leaves.still hc.hoisted ?_ (returning_legal hc.front hc.nodes))
    rw [hc.awaits, OwnAwait.ofArrowBody, OwnAwait.ofBlock, returning_await]
  · cases decls with
    | nil =>
        have hawaits := hc.awaits
        rw [OwnAwait.ofStmts, Bool.false_or] at hawaits
        exact Leaves.still hc.hoisted hawaits hc.nodes
    | cons d more => simp at hstays

/-- The declaration that binds a target to the value of a temporary, or to a default. -/
def slotInit (p : Pattern) (value : Expr) (span : Span) : Declarator :=
  match p with
  | .assign target default =>
    let test := Expr.binary .strictEq value (.identifier "undefined" span) span
    .mk target (some (.conditional test default value span)) span
  | other => .mk other (some value) span

theorem slotInit_await (p : Pattern) (name : String) (span : Span) :
    OwnAwait.ofDeclarators [slotInit p (.identifier name span) span] = OwnAwait.ofPattern p := by
  cases p <;> simp [slotInit]

theorem slotInit_legal {p : Pattern} (name : String) (span : Span) (hp : Legal written (Node.ofPattern p)) :
    Legal written (Node.ofDeclarators [slotInit p (.identifier name span) span]) := by
  have hvalue : Legal written (Node.ofExpr (.identifier name span)) := .cons trivial .nil
  cases p with
  | assign target default =>
      simp only [Node.ofPattern, Legal, List.forall_mem_cons, List.forall_mem_append] at hp
      refine .append hp.2.1 (.append (.cons trivial (.append ?_ (.append hp.2.2 hvalue))) .nil)
      exact .cons trivial (.append hvalue (.cons trivial .nil))
  | _ => exact .append hp (.append hvalue .nil)

/-- A parameter that moves into the body leaves a name. -/
theorem moveParam_ensures (p : Pattern) (out : Outside) (s : State) :
    Ensures (moveParam p) out s fun r s' => s' = { s with temporaries := s.temporaries + 1 } ∧
      ∃ name inner, (p = inner ∧ r.1 = .ident ⟨name, p.span⟩ ∨
          p = .rest inner ∧ r.1 = .rest (.ident ⟨name, p.span⟩)) ∧
        r.2 = declareStmt .let [slotInit inner (.identifier name p.span) p.span] p.span := by
  unfold moveParam
  have hcounted : Ensures temporary out s fun _ s' => s' = { s with temporaries := s.temporaries + 1 } :=
    temporary_ensures rfl
  refine Ensures.bind hcounted ?_
  rintro name s' rfl
  cases p with
  | rest inner =>
      cases inner <;> exact Ensures.pure ⟨rfl, name, _, .inr ⟨rfl, rfl⟩, rfl⟩
  | _ => exact Ensures.pure ⟨rfl, name, _, .inl ⟨rfl, rfl⟩, rfl⟩

/-- The declaration that a parameter becomes has the awaits of the parameter, and what is left of the
parameter has none. -/
theorem moveParam_marks {p : Pattern} (hp : Legal written (Node.ofPattern p)) (out : Outside) (s : State) :
    Ensures (moveParam p) out s fun r s' => s'.hoisted = s.hoisted ∧ s'.awaits = s.awaits ∧
      OwnAwait.ofPattern r.1 = false ∧ OwnAwait.ofStmt r.2 = OwnAwait.ofPattern p ∧
        Legal written (Node.ofPattern r.1) ∧ Legal written (Node.ofStmt r.2) := by
  refine (moveParam_ensures p out s).mono ?_
  rintro ⟨slot, decl⟩ s' ⟨rfl, name, inner, hslot, rfl⟩
  refine ⟨rfl, rfl, ?_⟩
  rcases hslot with ⟨rfl, rfl⟩ | ⟨rfl, rfl⟩
  · exact ⟨rfl, slotInit_await p name _, .cons trivial .nil, .cons trivial (slotInit_legal name _ hp)⟩
  · have hinner : Legal written (Node.ofPattern inner) := fun n hn => hp n (List.mem_cons_of_mem _ hn)
    exact ⟨rfl, slotInit_await inner name _, .cons trivial (.cons trivial .nil),
      .cons trivial (slotInit_legal name _ hinner)⟩

/-- What visiting parameters leaves: no `await` among them, and what moves into the body. -/
structure Takes (written : Span → Prop) (s s' : State) (ps : List Pattern) (moved : List Stmt) : Prop where
  hoisted : s'.hoisted = s.hoisted
  awaits : s'.awaits = (s.awaits || OwnAwait.ofStmts moved)
  params : OwnAwait.ofPatterns ps = false
  nodes : Legal written (Node.ofPatterns ps)
  moves : Legal written (Node.ofStmts moved)

theorem param_takes {visited : Walk Pattern} (moved : Bool)
    (h : Marks written false visited false OwnAwait.ofPattern Node.ofPattern) (out : Outside) (s : State) :
    Ensures (param visited moved) out s fun r s' => Takes written s s' [r.1] r.2 := by
  unfold param
  refine Ensures.bind (M := fun r s' => s'.hoisted = s.hoisted ∧ s'.awaits = s.awaits ∧
    r.2 = (OwnAwait.ofStmts r.1.2 || OwnAwait.ofPattern r.1.1) ∧
      (∀ d ∈ r.1.2, OwnAwait.ofStmt d = true) ∧ Legal written (Node.ofStmts r.1.2) ∧
        Legal written (Node.ofPattern r.1.1)) (framed_ensures ((h.collecting out _).mono ?_)) ?_
  · rintro ⟨p, decls⟩ s' hc
    exact ⟨hc.hoisted, rfl, hc.awaits.trans (by simp), hc.each, hc.front, hc.nodes⟩
  rintro ⟨⟨p, decls⟩, flagged⟩ s₁ ⟨hhoisted, hawaits, hflagged, heach, hdecls, hp⟩
  -- there are declarations only if there is an `await`
  have hneeds : (flagged || !decls.isEmpty) = (OwnAwait.ofStmts decls || OwnAwait.ofPattern p) := by
    cases decls with
    | nil => exact (Bool.or_false flagged).trans hflagged
    | cons d more =>
        have hfront := OwnAwait.ofStmts_of_forall heach (by simp)
        simp only at hfront
        rw [hfront, List.isEmpty_cons, Bool.not_false, Bool.or_true, Bool.true_or]
  have hmove : ∀ s₂ : State, s₂.hoisted = s.hoisted →
      s₂.awaits = (s.awaits || (OwnAwait.ofStmts decls || OwnAwait.ofPattern p)) →
        Ensures (moveParam p >>= fun x => do
          declareAll p.boundNames
          return (x.1, decls ++ [x.2])) out s₂ fun r s' => Takes written s s' [r.1] r.2 := by
    intro s₂ hhoisted₂ hawaits₂
    refine Ensures.bind (moveParam_marks hp out s₂) ?_
    rintro ⟨slot, decl⟩ s₃ ⟨hhoisted₃, hawaits₃, hslot, hdecl, hslotLegal, hdeclLegal⟩
    refine Ensures.bind (M := fun _ s' => s' = { s₃ with locals := s₃.locals.declareAll p.boundNames }) rfl ?_
    rintro _ _ rfl
    refine Ensures.pure ⟨hhoisted₃.trans hhoisted₂, ?_, ?_, hslotLegal.append .nil, ?_⟩
    · rw [OwnAwait.ofStmts_append, OwnAwait.ofStmts, OwnAwait.ofStmts, hdecl, Bool.or_false]
      exact hawaits₃.trans hawaits₂
    · rw [OwnAwait.ofPatterns, OwnAwait.ofPatterns, hslot, Bool.or_false]
    · rw [Node.ofStmts_append]
      exact hdecls.append (hdeclLegal.append .nil)
  refine Ensures.ite (fun hneed => ?_) fun hnone => ?_
  · rw [hneeds] at hneed
    refine Ensures.bind (M := fun _ s₂ => s₂ = { s₁ with awaits := true }) rfl ?_
    rintro _ _ rfl
    refine Ensures.ite (fun _ => ?_) fun hstay => absurd (by rw [hneeds, hneed, Bool.true_or]) hstay
    exact hmove _ hhoisted (by rw [hneed, Bool.or_true])
  · rw [hneeds, Bool.not_eq_true] at hnone
    refine Ensures.ite (fun _ => ?_) fun hstay => ?_
    · exact hmove _ hhoisted (by rw [hnone, Bool.or_false, hawaits])
    · rw [Bool.or_eq_false_iff] at hnone
      refine Ensures.bind (M := fun _ s' => s' = { s₁ with locals := s₁.locals.declareAll p.boundNames }) rfl ?_
      rintro _ _ rfl
      refine Ensures.pure ⟨hhoisted, by rw [OwnAwait.ofStmts, Bool.or_false]; exact hawaits, ?_, hp.append .nil, .nil⟩
      rw [OwnAwait.ofPatterns, OwnAwait.ofPatterns, hnone.2, Bool.or_false]

theorem Takes.cons {s s₁ s₂ : State} {p : Pattern} {ps : List Pattern} {moved moved' : List Stmt}
    (hp : Takes written s s₁ [p] moved) (hps : Takes written s₁ s₂ ps moved') :
    Takes written s s₂ (p :: ps) (moved ++ moved') := by
  refine ⟨hps.hoisted.trans hp.hoisted, ?_, ?_, ?_, ?_⟩
  · rw [hps.awaits, hp.awaits, OwnAwait.ofStmts_append, Bool.or_assoc]
  · have hfirst := hp.params
    rw [OwnAwait.ofPatterns, OwnAwait.ofPatterns, Bool.or_false] at hfirst
    rw [OwnAwait.ofPatterns, hfirst, hps.params, Bool.or_false]
  · have hfirst := hp.nodes
    rw [Node.ofPatterns, Node.ofPatterns, List.append_nil] at hfirst
    exact hfirst.append hps.nodes
  · rw [Node.ofStmts_append]
    exact hp.moves.append hps.moves

/-! ## Declarators -/

theorem ofDeclarators_cons_await (d : Declarator) (ds : List Declarator) :
    OwnAwait.ofDeclarators (d :: ds) = (OwnAwait.ofDeclarators [d] || OwnAwait.ofDeclarators ds) :=
  OwnAwait.ofDeclarators_append [d] ds

theorem ofDeclarators_cons_legal {d : Declarator} {ds : List Declarator}
    (hd : Legal written (Node.ofDeclarators [d])) (hds : Legal written (Node.ofDeclarators ds)) :
    Legal written (Node.ofDeclarators (d :: ds)) := by
  rw [show d :: ds = [d] ++ ds from rfl, Node.ofDeclarators_append]
  exact hd.append hds

theorem noteFunction_ensures (target : Pattern) (init : Option Expr) (out : Outside) (s : State) :
    Ensures (noteFunction target init) out s fun _ s' => s'.hoisted = s.hoisted ∧ s'.awaits = s.awaits := by
  unfold noteFunction
  split
  · split <;> exact ⟨rfl, rfl⟩
  · exact ⟨rfl, rfl⟩

/-- A declarator whose target and initial value are visited one after the other. -/
theorem declares_marks {target : Walk Pattern} {init : Walk (Option Expr)} (span : Span)
    (htarget : Marks written false target false OwnAwait.ofPattern Node.ofPattern)
    (hinit : Marks written false init false OwnAwait.ofOption Node.ofOption) :
    Marks written false (do declarator (← target) (← init) span) false (fun d => OwnAwait.ofDeclarators [d])
      fun d => Node.ofDeclarators [d] := by
  refine htarget.bind fun target' htarget' => hinit.bind fun init' hinit' => ?_
  refine Marks.skip (fun _ _ => ⟨rfl, rfl⟩) fun _ => Marks.skip (noteFunction_ensures _ _) fun _ => ?_
  refine Marks.made ?_ (htarget'.append (hinit'.append .nil))
  simp only [OwnAwait.ofDeclarators, Bool.or_false, Bool.false_or]

end Settle
end FieldScript
