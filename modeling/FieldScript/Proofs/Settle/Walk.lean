import FieldScript.Settle.Tree

/-!
# Reasoning about the walk

A step of the walk is a function of the state, so what it ensures is a statement about its result and
the state behind it. There is one rule for each way of putting steps together and one for each
primitive step, and a proof about the walk over trees follows the text of that walk with these rules.

* `Walk.Ensures.bind`: a step behind another starts in a state the first one leaves.
* `inPlace_ensures`, `asObject_ensures`, `lazily_ensures`: the three kinds of positions, in terms of
  what visiting the expression ensures.
* `inScope_ensures`, `collecting_ensures`, `framed_ensures`: the parts of the state that a step may
  change only for itself.
-/

namespace FieldScript.Settle

variable {α β : Type} {out : Outside} {s : State}

/-- What holds of the result of a step, and of the state behind it, if it starts in a state. -/
def Walk.Ensures (step : Walk α) (out : Outside) (s : State) (post : α → State → Prop) : Prop :=
  let r : α × State := (step out).run s
  post r.1 r.2

/-! ## Putting steps together -/

namespace Walk.Ensures

theorem pure {a : α} {post : α → State → Prop} (h : post a s) :
    Ensures (Pure.pure a : Walk α) out s post := h

theorem bind {x : Walk α} {f : α → Walk β} {M : α → State → Prop} {post : β → State → Prop}
    (hx : Ensures x out s M) (hf : ∀ a s', M a s' → Ensures (f a) out s' post) :
    Ensures (x >>= f) out s post := hf _ _ hx

theorem mono {x : Walk α} {post post' : α → State → Prop} (h : Ensures x out s post)
    (himp : ∀ a s', post a s' → post' a s') : Ensures x out s post' := himp _ _ h

/-- A step of which nothing needs to be known. -/
theorem skip {x : Walk α} {f : α → Walk β} {post : β → State → Prop}
    (hf : ∀ a s', Ensures (f a) out s' post) : Ensures (x >>= f) out s post := hf _ _

theorem ite {c : Prop} [Decidable c] {x y : Walk α} {post : α → State → Prop}
    (hx : c → Ensures x out s post) (hy : ¬c → Ensures y out s post) :
    Ensures (if c then x else y) out s post := by
  split
  · exact hx ‹_›
  · exact hy ‹_›

/-- A change of the state followed by another step. -/
theorem modify_bind {f : State → State} {g : Unit → Walk β} {post : β → State → Prop}
    (h : Ensures (g ()) out (f s) post) : Ensures ((modify f : Walk Unit) >>= g) out s post := h

end Walk.Ensures

open Walk (Ensures)

/-! ## Primitive steps -/

/-- The name of a temporary. -/
def temporaryName (n : Nat) : String := "_" ++ Nat.repr n

theorem temporaryName_injective {k l : Nat} (h : temporaryName k = temporaryName l) : k = l := by
  have hdigits : Nat.toDigits 10 k = Nat.toDigits 10 l := by
    have hlist := congrArg String.toList h
    simpa [temporaryName, Nat.toList_repr] using hlist
  rw [← Nat.ofDigitChars_ten_toDigits (n := k), hdigits, Nat.ofDigitChars_ten_toDigits]

theorem temporary_ensures {post : String → State → Prop}
    (h : post (temporaryName s.temporaries) { s with temporaries := s.temporaries + 1 }) :
    Ensures temporary out s post := h

theorem markAwait_ensures {post : Unit → State → Prop} (h : post () { s with awaits := true }) :
    Ensures markAwait out s post := h

/-- Marking the function or not, if what follows does not depend on it. -/
theorem markAwait_if_ensures {c : Prop} [Decidable c] {f : Unit → Walk α} {post : α → State → Prop}
    (h : ∀ awaits, Ensures (f ()) out { s with awaits := awaits } post) :
    Ensures (if c then markAwait >>= f else f ()) out s post :=
  Ensures.ite (fun _ => h true) fun _ => h s.awaits

theorem declareAll_ensures {names : List String} {post : Unit → State → Prop}
    (h : post () { s with locals := s.locals.declareAll names }) :
    Ensures (declareAll names) out s post := h

/-- Noting a name touches nothing but the list of noted names. -/
theorem noteName_ensures {name : String} {post : Unit → State → Prop}
    (h : ∀ helpers, post () { s with helpers := helpers }) :
    Ensures (noteName name) out s post := by
  unfold noteName
  refine Ensures.bind (M := fun o s' => out = o ∧ s = s') ⟨rfl, rfl⟩ ?_
  rintro _ _ ⟨rfl, rfl⟩
  refine Ensures.bind (M := fun t s' => s = t ∧ s = s') ⟨rfl, rfl⟩ ?_
  rintro _ _ ⟨rfl, rfl⟩
  split
  · exact h _
  · exact h s.helpers

/-- Whether a call of an expression starts an asynchronous computation, as far as its name tells. -/
def startsAsync (out : Outside) (l : Locals) : Expr → Bool
  | .identifier name _ =>
    (out.capabilities.isAsync name && !l.contains name) || l.isAsyncFunction name
  | _ => false

theorem callsAsync_ensures {callee : Expr} {post : Bool → State → Prop}
    (h : post (startsAsync out s.locals callee) s) : Ensures (callsAsync callee) out s post := by
  cases callee <;> exact h

/-! ## Parts of the state that a step changes for itself -/

theorem inScope_ensures {step : Walk α} {post : α → State → Prop}
    (h : Ensures step out { s with locals := s.locals.push }
      fun a s' => post a { s' with locals := s'.locals.pop }) :
    Ensures (inScope step) out s post := h

theorem collecting_ensures {step : Walk α} {post : α × List Stmt → State → Prop}
    (h : Ensures step out { s with hoisted := [] }
      fun a s' => post (a, s'.hoisted) { s' with hoisted := s.hoisted }) :
    Ensures (collecting step) out s post := h

theorem framed_ensures {step : Walk α} {isAsync : Bool} {post : α × Bool → State → Prop}
    (h : Ensures step out { s with awaits := isAsync }
      fun a s' => post (a, s'.awaits) { s' with awaits := s.awaits }) :
    Ensures (framed isAsync step) out s post := h

/-! ## Positions -/

/-- In a position whose value is used at once, a pending value gets an `await`. -/
theorem inPlace_ensures {visited : Visited} {M : Expr × Bool → State → Prop}
    {post : Expr → State → Prop} (h : Ensures visited out s M)
    (hpending : ∀ e s', M (e, true) s' → post (awaited e) { s' with awaits := true })
    (hready : ∀ e s', M (e, false) s' → post e s') : Ensures (inPlace visited) out s post := by
  unfold inPlace
  refine Ensures.bind h ?_
  rintro ⟨e, pending⟩ s' hmid
  cases pending with
  | true => exact hpending e s' hmid
  | false => exact hready e s' hmid

/-- The declaration of a temporary for a pending value. -/
def temporaryStmt (n : Nat) (e : Expr) : Stmt :=
  declareStmt .const [.mk (.ident ⟨temporaryName n, e.span⟩) (some (awaited e)) e.span] e.span

/-- As the object of a member access, a pending value gets a temporary. -/
theorem asObject_ensures {visited : Visited} {M : Expr × Bool → State → Prop}
    {post : Expr → State → Prop} (h : Ensures visited out s M)
    (hpending : ∀ e s', M (e, true) s' → post (.identifier (temporaryName s'.temporaries) e.span)
      { s' with temporaries := s'.temporaries + 1, awaits := true,
                hoisted := s'.hoisted ++ [temporaryStmt s'.temporaries e] })
    (hready : ∀ e s', M (e, false) s' → post e s') : Ensures (asObject visited) out s post := by
  unfold asObject
  refine Ensures.bind h ?_
  rintro ⟨e, pending⟩ s' hmid
  cases pending with
  | true => exact hpending e s' hmid
  | false => exact hready e s' hmid

/-- In a position that may not be reached, declarations stay inside. -/
theorem lazily_ensures {visited : Visited} {M : Expr → State → Prop} {post : Expr → State → Prop}
    (h : Ensures (inPlace visited) out { s with hoisted := [] } M)
    (hplain : ∀ e s', M e s' → s'.hoisted = [] → post e { s' with hoisted := s.hoisted })
    (hthunk : ∀ e s', M e s' → s'.hoisted ≠ [] →
      post (thunk s'.hoisted e) { s' with hoisted := s.hoisted, awaits := true }) :
    Ensures (lazily visited) out s post := by
  unfold lazily
  refine Ensures.bind (M := fun r s' => ∃ s₁, M r.1 s₁ ∧ r.2 = s₁.hoisted ∧
    s' = { s₁ with hoisted := s.hoisted }) (collecting_ensures (h.mono ?_)) ?_
  · intro e s' hmid
    exact ⟨s', hmid, rfl, rfl⟩
  rintro ⟨e, decls⟩ _ ⟨s₁, hmid, rfl, rfl⟩
  cases hdecls : s₁.hoisted with
  | nil => exact hplain e s₁ hmid hdecls
  | cons d more =>
      have hne : s₁.hoisted ≠ [] := by simp [hdecls]
      have hpost := hthunk e s₁ hmid hne
      rw [hdecls] at hpost
      exact hpost

/-- A statement with what it needs in front of it. -/
theorem placed_ensures {step : Walk Stmt} {post : List Stmt → State → Prop}
    (h : Ensures step out { s with hoisted := [] }
      fun stmt s' => post (s'.hoisted ++ [stmt]) { s' with hoisted := s.hoisted }) :
    Ensures (placed step) out s post := h

/-! ## The clauses for statements -/

theorem statement_declare (kind : DeclKind) (ds : List Declarator) (dspan span : Span) :
    statement (.declare (.mk kind ds dspan) span) = declaration kind span [] ds := rfl

theorem statement_expr (e : Expr) (span : Span) :
    statement (.expr e span) = placed (do return .expr (← inPlace (expr e)) span) := rfl

theorem statement_return (e : Expr) (span : Span) :
    statement (.return (some e) span) =
      placed (do return .return (some (← inPlace (expr e))) span) := rfl

theorem statement_cond (test : Expr) (yes : Stmt) (span : Span) :
    statement (.cond test yes none span) = placed (do
      let test ← inPlace (expr test)
      let out ← inScope (statement yes)
      return .cond test (bodyOf yes out) none span) := rfl

theorem statement_cond_else (test : Expr) (yes no : Stmt) (span : Span) :
    statement (.cond test yes (some no) span) = placed (do
      let test ← inPlace (expr test)
      let out ← inScope (statement yes)
      let out' ← inScope (statement no)
      return .cond test (bodyOf yes out) (some (bodyOf no out')) span) := rfl

theorem statement_while (test : Expr) (body : Stmt) (span : Span) :
    statement (.while test body span) = placed (do
      let test ← lazily (expr test)
      let out ← inScope (statement body)
      return .while test (bodyOf body out) span) := rfl

theorem statement_doWhile (body : Stmt) (test : Expr) (span : Span) :
    statement (.doWhile body test span) = placed (do
      let out ← inScope (statement body)
      let test ← lazily (expr test)
      return .doWhile (bodyOf body out) test span) := rfl

theorem statement_block (b : Block) :
    statement (.block b) = placed (do return .block (← block b)) := rfl

/-- Visits an expression that may be left out. -/
def optionally (visit : Expr → Walk Expr) : Option Expr → Walk (Option Expr)
  | some e => do return some (← visit e)
  | none => return none

theorem statement_for (init : ForInit) (test update : Option Expr) (body : Stmt) (span : Span) :
    statement (.for init test update body span) = placed (inScope do
      let init ← forInit init
      let test ← optionally (fun e => lazily (expr e)) test
      let update ← optionally (fun e => lazily (expr e)) update
      let out ← inScope (statement body)
      return .for init test update (bodyOf body out) span) := by
  cases test <;> cases update <;> rfl

theorem forInit_declare (kind : DeclKind) (target : Pattern) (init : Option Expr) (dspan : Span)
    (more : List Declarator) (span : Span) :
    forInit (.declare (.mk kind (.mk target init dspan :: more) span)) = (do
      let d ← (do
        let target ← pattern target
        let init ← optionally (fun e => inPlace (expr e)) init
        declarator target init dspan)
      let more ← lazyDeclarators more
      return .declare (.mk kind (d :: more) span)) := by
  cases init <;> rfl

theorem lazyDeclarators_cons (target : Pattern) (init : Option Expr) (span : Span)
    (more : List Declarator) :
    lazyDeclarators (.mk target init span :: more) = (do
      let d ← (do
        let target ← pattern target
        let init ← optionally (fun e => lazily (expr e)) init
        declarator target init span)
      return d :: (← lazyDeclarators more)) := by
  cases init <;> rfl

theorem declaration_cons (kind : DeclKind) (span : Span) (waiting : List Declarator)
    (target : Pattern) (init : Option Expr) (dspan : Span) (more : List Declarator) :
    declaration kind span waiting (.mk target init dspan :: more) = (do
      let (d, decls) ← collecting (do
        let target ← pattern target
        let init ← optionally (fun e => inPlace (expr e)) init
        declarator target init dspan)
      if !decls.isEmpty && !waiting.isEmpty then
        let out ← declaration kind span [d] more
        return declareStmt kind waiting span :: decls ++ out
      else
        let out ← declaration kind span (waiting ++ [d]) more
        return decls ++ out) := by
  cases init <;> rfl
end FieldScript.Settle
