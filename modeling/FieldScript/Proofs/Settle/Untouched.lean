import FieldScript.Proofs.Settle.Helpers
import FieldScript.Proofs.Settle.Scopes
import FieldScript.Proofs.Syntax.Mentions
import FieldScript.Proofs.Syntax.Normal

/-!
# Bodies in which nothing waits

If nothing in a body waits and no asynchronous capability is called in it, then no value is ever pending: settling
brings the body to its normal form and finds out which functions of the prelude it needs.

* `Answers`: a step that answers a given tree, declares given names and notes the names that a tree reads, and that does
  nothing else. There is one rule for each way of putting steps together.
* `expr_answers` and its companions: the walk, case by case.
* `settle_normal`: what settling makes of such a body. `shadowedCall_normal` is a body with both kinds of normal forms.
-/

namespace FieldScript.Settle

open Walk (Ensures)

variable {α β : Type} {out : Outside} {s s' : State} {us us' : Uses} {names names' : List String}

/-! ## Steps that change nothing -/

/-- No local name holds an asynchronous function. -/
def HoldsPlain (l : Locals) : Prop := ∀ name, l.isAsyncFunction name = false

/-- No asynchronous capability is called by a name that is not local. -/
def CallsDirectly (out : Outside) (l : Locals) (us : Uses) : Prop :=
  ∀ name, .call name ∈ us → l.contains name = false → out.capabilities.isAsync name = false

/-- A name of the prelude that means nothing else. -/
def IsPreludes (out : Outside) (l : Locals) (name : String) : Prop :=
  Prelude.contains name = true ∧ l.contains name = false ∧ out.capabilities.contains name = false ∧
    out.args.contains name = false

/-- The state behind a step that declares names, notes the names that are read, and does nothing else. -/
structure Noted (out : Outside) (s s' : State) (us : Uses) (names : List String) : Prop where
  locals : s'.locals = s.locals.declareAll names
  awaits : s'.awaits = s.awaits
  hoisted : s'.hoisted = s.hoisted
  temporaries : s'.temporaries = s.temporaries
  helpers : ∀ name, name ∈ s'.helpers ↔ name ∈ s.helpers ∨ (.read name ∈ us ∧ IsPreludes out s.locals name)

/-- A step that answers a given result, declares names and notes the names that are read, and does nothing else, if no
asynchronous capability is called. -/
def Answers (out : Outside) (step : Walk α) (a : α) (us : Uses) (names : List String) : Prop :=
  ∀ s, HoldsPlain s.locals → CallsDirectly out s.locals us →
    Ensures step out s fun r s' => r = a ∧ Noted out s s' us names

theorem HoldsPlain.declareAll {l : Locals} (h : HoldsPlain l) (names : List String) :
    HoldsPlain (l.declareAll names) := by
  induction names generalizing l with
  | nil => exact h
  | cons name more ih =>
      refine ih (l := l.bind name false) fun key => ?_
      unfold Locals.isAsyncFunction
      rw [Locals.find?_bind]
      split
      · rfl
      · exact h key

namespace Noted

theorem refl (s : State) : Noted out s s [] [] := ⟨rfl, rfl, rfl, rfl, fun _ => by simp⟩

/-- Names that have been declared mean nothing outside. -/
theorem isPreludes_declareAll {l : Locals} {name : String} :
    IsPreludes out (l.declareAll names) name ↔ name ∉ names ∧ IsPreludes out l name := by
  unfold IsPreludes
  rw [Locals.contains_declareAll]
  simp only [Bool.or_eq_false_iff, List.contains_eq_mem, decide_eq_false_iff_not]
  tauto

theorem trans {s₁ s₂ : State} (h : Noted out s s₁ us names) (h' : Noted out s₁ s₂ us' names') :
    Noted out s s₂ (us ++ Uses.behind names us') (names ++ names') where
  locals := by rw [h'.locals, h.locals, Locals.declareAll_append]
  awaits := h'.awaits.trans h.awaits
  hoisted := h'.hoisted.trans h.hoisted
  temporaries := h'.temporaries.trans h.temporaries
  helpers name := by
    rw [h'.helpers, h.helpers, h.locals, isPreludes_declareAll]
    simp only [List.mem_append, Uses.mem_behind, Use.name]
    tauto

end Noted

theorem CallsDirectly.left {l : Locals} (h : CallsDirectly out l (us ++ us')) : CallsDirectly out l us :=
  fun name hname => h name (List.mem_append_left _ hname)

theorem CallsDirectly.behind {l : Locals} (h : CallsDirectly out l (us ++ Uses.behind names us')) :
    CallsDirectly out (l.declareAll names) us' := by
  intro name hname hfree
  rw [Locals.contains_declareAll, Bool.or_eq_false_iff] at hfree
  have hnot : name ∉ names := by simpa using hfree.1
  exact h name (List.mem_append_right _ (Uses.mem_behind.2 ⟨hname, hnot⟩)) hfree.2

/-! ## Putting steps together -/

namespace Answers

variable {x : Walk α} {f : α → Walk β} {a : α} {b : β}

theorem pure (a : α) : Answers out (Pure.pure a) a [] [] := fun s _ _ => ⟨rfl, .refl s⟩

/-- A step behind another one. -/
theorem bind (hx : Answers out x a us names) (hf : Answers out (f a) b us' names') :
    Answers out (x >>= f) b (us ++ Uses.behind names us') (names ++ names') := by
  intro s hplain hcalls
  refine Ensures.bind (hx s hplain hcalls.left) ?_
  rintro _ s₁ ⟨rfl, hfirst⟩
  have hlocals := hfirst.locals
  refine (hf s₁ ?_ ?_).mono fun r s₂ ⟨hr, hsecond⟩ => ⟨hr, hfirst.trans hsecond⟩
  · rw [hlocals]
    exact hplain.declareAll names
  · rw [hlocals]
    exact hcalls.behind

theorem congr (h : Answers out x a us names) (hus : us = us') (hnames : names = names') :
    Answers out x a us' names' := by
  rw [← hus, ← hnames]
  exact h

/-- A step behind one that declares nothing. -/
theorem andThen (hx : Answers out x a us []) (hf : Answers out (f a) b us' names) :
    Answers out (x >>= f) b (us ++ us') names :=
  (hx.bind hf).congr (by simp [Uses.behind]) rfl

/-- A step whose answer is used up. -/
theorem last (hx : Answers out x a us names) (hf : f a = Pure.pure b) : Answers out (x >>= f) b us names := by
  have hend : Answers out (f a) b [] [] := hf ▸ pure b
  exact (hx.bind hend).congr (List.append_nil us) (List.append_nil names)

/-- A tree around another one. -/
theorem node {tree : α → β} (hx : Answers out x a us names) :
    Answers out (do let a ← x; return tree a) (tree a) us names := hx.last rfl

/-- A tree around two others. -/
theorem node₂ {y : Walk β} {γ : Type} {tree : α → β → γ} (hx : Answers out x a us []) (hy : Answers out y b us' names) :
    Answers out (do let a ← x; let b ← y; return tree a b) (tree a b) (us ++ us') names :=
  hx.andThen hy.node

end Answers

/-! ## Primitive steps -/

theorem declareAll_answers (names : List String) : Answers out (declareAll names) () [] names :=
  fun _ _ _ => ⟨rfl, rfl, rfl, rfl, rfl, fun _ => by simp; rfl⟩

theorem callsAsync_answers (callee : Expr) : Answers out (callsAsync callee) false callee.calls [] := by
  intro s hplain hcalls
  refine callsAsync_ensures ⟨?_, rfl, rfl, rfl, rfl, fun name => ?_⟩
  · cases callee with
    | identifier name span =>
        have hname := hplain name
        cases hlocal : s.locals.contains name with
        | true => simp [startsAsync, hlocal, hname]
        | false => simp [startsAsync, hlocal, hname, hcalls name List.mem_cons_self hlocal]
    | _ => rfl
  · cases callee <;> simp [Expr.calls]

theorem noteName_answers (name : String) : Answers out (noteName name) () [.read name] [] := by
  intro s _ _
  unfold noteName
  refine Ensures.bind (M := fun o s' => out = o ∧ s = s') ⟨rfl, rfl⟩ ?_
  rintro _ _ ⟨rfl, rfl⟩
  refine Ensures.bind (M := fun t s' => s = t ∧ s = s') ⟨rfl, rfl⟩ ?_
  rintro _ _ ⟨rfl, rfl⟩
  split
  · rename_i hneeded
    simp only [Bool.and_eq_true, Bool.not_eq_true'] at hneeded
    obtain ⟨⟨⟨⟨hprelude, hlocal⟩, hcapability⟩, harg⟩, -⟩ := hneeded
    refine ⟨rfl, rfl, rfl, rfl, rfl, fun other => List.mem_append.trans (or_congr_right ?_)⟩
    rw [List.mem_singleton, List.mem_singleton, Use.read.injEq]
    constructor
    · rintro rfl
      exact ⟨rfl, hprelude, hlocal, hcapability, harg⟩
    · exact And.left
  · rename_i hneeded
    refine ⟨rfl, rfl, rfl, rfl, rfl, fun other => ⟨.inl, ?_⟩⟩
    rw [List.mem_singleton, Use.read.injEq]
    rintro (h | ⟨rfl, hprelude, hlocal, hcapability, harg⟩)
    · exact h
    · cases hknown : s.helpers.contains other with
      | true => exact List.contains_iff_mem.1 hknown
      | false =>
          rw [hprelude, hlocal, hcapability, harg, hknown] at hneeded
          exact absurd rfl hneeded

theorem inScope_answers {step : Walk α} {a : α} (h : Answers out step a us names) :
    Answers out (inScope step) a us [] := by
  intro s hplain hcalls
  refine inScope_ensures ((h { s with locals := s.locals.push } hplain hcalls).mono ?_)
  rintro r s' ⟨hr, hnoted⟩
  refine ⟨hr, ?_, hnoted.awaits, hnoted.hoisted, hnoted.temporaries, hnoted.helpers⟩
  show s'.locals.pop = s.locals
  rw [hnoted.locals, Locals.pop_declareAll, Locals.pop_push]

theorem collecting_answers {step : Walk α} {a : α} (h : Answers out step a us names) :
    Answers out (collecting step) (a, []) us names := by
  intro s hplain hcalls
  refine collecting_ensures ((h { s with hoisted := [] } hplain hcalls).mono ?_)
  rintro r s' ⟨hr, hnoted⟩
  exact ⟨by rw [hr, hnoted.hoisted], hnoted.locals, hnoted.awaits, rfl, hnoted.temporaries, hnoted.helpers⟩

theorem framed_answers {step : Walk α} {a : α} (isAsync : Bool) (h : Answers out step a us names) :
    Answers out (framed isAsync step) (a, isAsync) us names := by
  intro s hplain hcalls
  refine framed_ensures ((h { s with awaits := isAsync } hplain hcalls).mono ?_)
  rintro r s' ⟨hr, hnoted⟩
  exact ⟨by rw [hr, hnoted.awaits], hnoted.locals, rfl, hnoted.hoisted, hnoted.temporaries, hnoted.helpers⟩

/-! ## Positions -/

section

variable {visited : Visited} {e : Expr} (h : Answers out visited (e, false) us names)

include h

theorem inPlace_answers : Answers out (inPlace visited) e us names := by
  unfold inPlace
  exact h.last rfl

theorem asObject_answers : Answers out (asObject visited) e us names := by
  unfold asObject
  exact h.last rfl

theorem lazily_answers : Answers out (lazily visited) e us names := by
  unfold lazily
  exact (collecting_answers (inPlace_answers h)).last rfl

end

theorem placed_answers {step : Walk Stmt} {stmt : Stmt} (h : Answers out step stmt us names) :
    Answers out (placed step) [stmt] us names := by
  unfold placed
  exact (collecting_answers h).last rfl

/-! ## Functions that are not asynchronous -/

theorem isAsyncArrow_normal {e : Expr} (h : Immediate (Node.ofExpr e)) : isAsyncArrow e.normal = false := by
  cases e with
  | arrow ps body isAsync span =>
      show isAsync = false
      simpa only [Node.isImmediate, Bool.not_eq_true'] using h.head
  | _ => rfl

theorem declarator_answers (target : Pattern) {init : Option Expr} (span : Span)
    (h : ∀ e, init = some e → isAsyncArrow e = false) :
    Answers out (declarator target init span) (.mk target init span) [] target.boundNames := by
  have hnote : Answers out (noteFunction target init) () [] [] := by
    unfold noteFunction
    split
    · rw [if_neg (by rw [h _ rfl]; nofun)]
      exact .pure ()
    · exact .pure ()
  have hrest : Answers out (do noteFunction target init; return Declarator.mk target init span)
      (.mk target init span) [] [] := hnote.last rfl
  exact ((declareAll_answers target.boundNames).bind hrest).congr rfl (List.append_nil _)

/-- A parameter that stays where it is. -/
theorem param_answers {visited : Walk Pattern} {p : Pattern} (h : Answers out visited p us []) :
    Answers out (param visited false) (p, []) us p.boundNames := by
  have hdeclare : Answers out (do declareAll p.boundNames; return (p, ([] : List Stmt))) (p, []) [] p.boundNames :=
    (declareAll_answers p.boundNames).last rfl
  unfold param
  exact ((framed_answers false (collecting_answers h)).andThen hdeclare).congr (List.append_nil us) rfl

theorem bodyOf_eq_braced (branch : Stmt) (stmts : List Stmt) : bodyOf branch stmts = branch.braced stmts := by
  cases branch with
  | block b =>
      match stmts with
      | [] | [_] | _ :: _ :: _ => rfl
  | _ => rfl

/-- An element or argument that is an asynchronous arrow function. -/
def isAsyncItem : Item → Bool
  | .expr e | .spread e => isAsyncArrow e
  | .hole => false

theorem isAsyncItem_normalItems (args : List Item) (h : Immediate (Node.ofItems args)) :
    ∀ item ∈ normalItems args, isAsyncItem item = false := by
  induction args with
  | nil => exact List.forall_mem_nil _
  | cons item more ih =>
      cases item with
      | hole => exact List.forall_mem_cons.2 ⟨rfl, ih h⟩
      | expr e =>
          obtain ⟨he, hmore⟩ := h.parts
          exact List.forall_mem_cons.2 ⟨isAsyncArrow_normal he, ih hmore⟩
      | spread e =>
          obtain ⟨he, hmore⟩ := h.parts
          exact List.forall_mem_cons.2 ⟨isAsyncArrow_normal he, ih hmore⟩

/-- A call without asynchronous arguments takes no asynchronous callback, and maps none. -/
theorem callback_eq_false {items : List Item} (h : ∀ item ∈ items, isAsyncItem item = false) :
    (items.any fun
      | .expr e => isAsyncArrow e
      | _ => false) = false := by
  rw [List.any_eq_false]
  intro item hitem
  cases item with
  | expr e => exact Bool.eq_false_iff.1 (h _ hitem)
  | _ => nofun

theorem maps_eq_false {items : List Item} (callee : Expr) (h : ∀ item ∈ items, isAsyncItem item = false) :
    (isMap callee && match items.head? with
      | some (.expr e) | some (.spread e) => isAsyncArrow e
      | _ => false) = false := by
  cases items with
  | nil => exact Bool.and_false _
  | cons item more =>
      have hitem := h item List.mem_cons_self
      cases item with
      | expr e | spread e =>
          show (isMap callee && isAsyncArrow e) = false
          rw [show isAsyncArrow e = false from hitem, Bool.and_false]
      | hole => exact Bool.and_false _

theorem isAsyncArrow_normalOption {e? : Option Expr} (h : Immediate (Node.ofOption e?)) :
    ∀ e, normalOption e? = some e → isAsyncArrow e = false := by
  intro e he
  cases e? with
  | none => cases he
  | some e =>
      cases he
      exact isAsyncArrow_normal h

/-- A declarator. Its names are declared behind its parts. -/
theorem parts_answers {visit : Expr → Walk Expr} {target : Pattern} {init : Option Expr} (span : Span)
    (htarget : Answers out (pattern target) target.normal target.uses [])
    (hinit : Answers out (optionally visit init) (normalOption init) (usesOfOption init) [])
    (h : Immediate (Node.ofOption init)) :
    Answers out (do
      let target ← pattern target
      let init ← optionally visit init
      declarator target init span) (.mk target.normal (normalOption init) span)
        (target.uses ++ usesOfOption init) target.boundNames :=
  (htarget.andThen (hinit.andThen (declarator_answers target.normal span (isAsyncArrow_normalOption h)))).congr
    (by rw [List.append_nil]) target.boundNames_normal

theorem ready_call {callback maps direct : Bool} {call joined : Expr} (hcallback : callback = false)
    (hmaps : maps = false) (hdirect : direct = false) :
    (if maps then return (joined, true) else return (call, false || direct || callback) : Visited) =
      return (call, false) := by
  rw [hcallback, hmaps, hdirect]
  rfl

/-! ## The walk -/

mutual

theorem expr_answers (e : Expr) (h : Immediate (Node.ofExpr e)) :
    Answers out (expr e) (e.normal, false) e.uses [] := by
  cases e with
  | call callee args optional span =>
      obtain ⟨hcallee, hargs⟩ := h.below.parts
      unfold expr
      refine (callsAsync_answers callee).andThen ((inPlace_answers (expr_answers callee hcallee)).andThen
        ((items_answers args hargs).last ?_))
      have hitems := isAsyncItem_normalItems args hargs
      exact ready_call (callback_eq_false hitems) (maps_eq_false _ hitems) (isAsyncArrow_normal hcallee)
  | literal lit span => unfold expr; exact .pure _
  | this span => unfold expr; exact .pure _
  | function fn => unfold expr; exact .pure _
  | identifier name span => unfold expr; exact (noteName_answers name).last rfl
  | template parts es span => unfold expr; exact (values_answers es h.below).node
  | array es span => unfold expr; exact (items_answers es h.below).node
  | object ps span => unfold expr; exact (properties_answers ps h.below).node
  | member o k optional span =>
      obtain ⟨ho, hk⟩ := h.below.parts
      unfold expr
      exact (asObject_answers (expr_answers o ho)).node₂ (key_answers k hk)
  | arrow ps body isAsync span =>
      obtain ⟨hps, hbody⟩ := h.below.parts
      unfold expr
      have hparts : Answers out (do
          let (ps, moved) ← params false ps
          let body ← arrowBody span body
          return (ps, withMoved moved body span)) (normalPatterns ps, body.normal span)
            (usesOfParams ps ++ Uses.behind (Pattern.boundNamesOf ps) body.uses) (Pattern.boundNamesOf ps ++ []) :=
        (params_answers ps hps).bind ((arrowBody_answers span body hbody).last rfl)
      exact (framed_answers isAsync (inScope_answers hparts)).last rfl
  | await e span => cases h.head
  | unary op e span => unfold expr; exact (inPlace_answers (expr_answers e h.below)).node
  | update op before target span => unfold expr; exact (pattern_answers target h.below).node
  | binary op l r span =>
      obtain ⟨hl, hr⟩ := h.below.parts
      unfold expr
      exact (inPlace_answers (expr_answers l hl)).node₂ (inPlace_answers (expr_answers r hr))
  | logical op l r span =>
      obtain ⟨hl, hr⟩ := h.below.parts
      unfold expr
      exact (inPlace_answers (expr_answers l hl)).node₂ (lazily_answers (expr_answers r hr))
  | conditional test yes no span =>
      obtain ⟨htest, hbranches⟩ := h.below.parts
      obtain ⟨hyes, hno⟩ := hbranches.parts
      unfold expr
      exact (inPlace_answers (expr_answers test htest)).andThen
        ((lazily_answers (expr_answers yes hyes)).node₂ (lazily_answers (expr_answers no hno)))
  | assign op target value span =>
      obtain ⟨htarget, hvalue⟩ := h.below.parts
      unfold expr
      exact (pattern_answers target htarget).node₂ (inPlace_answers (expr_answers value hvalue))
  | sequence es span =>
      match es with
      | [] => unfold expr; exact .pure _
      | e :: more =>
          obtain ⟨he, hmore⟩ := h.below.parts
          unfold expr
          exact (inPlace_answers (expr_answers e he)).node₂ (lazyValues_answers more hmore)

theorem values_answers (es : List Expr) (h : Immediate (Node.ofExprs es)) :
    Answers out (values es) (normalExprs es) (usesOfExprs es) [] := by
  match es with
  | [] => unfold values; exact .pure _
  | e :: more =>
      obtain ⟨he, hmore⟩ := h.parts
      unfold values
      exact (inPlace_answers (expr_answers e he)).node₂ (values_answers more hmore)

theorem lazyValues_answers (es : List Expr) (h : Immediate (Node.ofExprs es)) :
    Answers out (lazyValues es) (normalExprs es) (usesOfExprs es) [] := by
  match es with
  | [] => unfold lazyValues; exact .pure _
  | e :: more =>
      obtain ⟨he, hmore⟩ := h.parts
      unfold lazyValues
      exact (lazily_answers (expr_answers e he)).node₂ (lazyValues_answers more hmore)

theorem items_answers (es : List Item) (h : Immediate (Node.ofItems es)) :
    Answers out (items es) (normalItems es) (usesOfItems es) [] := by
  match es with
  | [] => unfold items; exact .pure _
  | .hole :: more => unfold items; exact (items_answers more h).node
  | .expr e :: more | .spread e :: more =>
      obtain ⟨he, hmore⟩ := h.parts
      unfold items
      exact (inPlace_answers (expr_answers e he)).node₂ (items_answers more hmore)

theorem key_answers (k : Key) (h : Immediate (Node.ofKey k)) : Answers out (key k) k.normal k.uses [] := by
  match k with
  | .computed e => unfold key; exact (inPlace_answers (expr_answers e h)).node
  | .name _ | .literal _ => unfold key; exact .pure _

theorem properties_answers (ps : List Property) (h : Immediate (Node.ofProperties ps)) :
    Answers out (properties ps) (normalProperties ps) (usesOfProperties ps) [] := by
  match ps with
  | [] => unfold properties; exact .pure _
  | .spread e :: more =>
      obtain ⟨he, hmore⟩ := h.parts
      unfold properties
      exact (inPlace_answers (expr_answers e he)).node₂ (properties_answers more hmore)
  | .init k e shorthand span :: more =>
      obtain ⟨hk, hrest⟩ := h.parts
      obtain ⟨he, hmore⟩ := hrest.parts
      unfold properties
      exact (key_answers k hk).andThen
        ((inPlace_answers (expr_answers e he)).node₂ (properties_answers more hmore))

theorem arrowBody_answers (span : Span) (body : ArrowBody) (h : Immediate (Node.ofArrowBody body)) :
    Answers out (arrowBody span body) (body.normal span) body.uses [] := by
  match body with
  | .expr e =>
      unfold arrowBody exprBody ArrowBody.normal
      refine (collecting_answers (inPlace_answers (expr_answers e h))).last ?_
      cases e.isMemberOrCall with
      | true => simp [returning]
      | false => rfl
  | .block b => unfold arrowBody; exact (block_answers b h).node

theorem params_answers (ps : List Pattern) (h : Immediate (Node.ofPatterns ps)) :
    Answers out (params false ps) (normalPatterns ps, []) (usesOfParams ps) (Pattern.boundNamesOf ps) := by
  match ps with
  | [] => unfold params; exact .pure _
  | p :: more =>
      obtain ⟨hp, hmore⟩ := h.parts
      have hparam : Answers out (param (pattern p) false) (p.normal, []) p.uses p.boundNames :=
        (param_answers (pattern_answers p hp)).congr rfl p.boundNames_normal
      unfold params
      exact hparam.bind ((params_answers more hmore).last rfl)

theorem pattern_answers (p : Pattern) (h : Immediate (Node.ofPattern p)) :
    Answers out (pattern p) p.normal p.uses [] := by
  match p with
  | .ident _ | .hole => unfold pattern; exact .pure _
  | .array elements span => unfold pattern; exact (patterns_answers elements h.below).node
  | .object props span => unfold pattern; exact (patternProps_answers props h.below).node
  | .assign target default =>
      obtain ⟨htarget, hdefault⟩ := h.below.parts
      unfold pattern
      exact (pattern_answers target htarget).node₂ (lazily_answers (expr_answers default hdefault))
  | .rest target => unfold pattern; exact (pattern_answers target h.below).node
  | .member e => unfold pattern; exact (expr_answers e h.below).last rfl

theorem patterns_answers (ps : List Pattern) (h : Immediate (Node.ofPatterns ps)) :
    Answers out (patterns ps) (normalPatterns ps) (usesOfPatterns ps) [] := by
  match ps with
  | [] => unfold patterns; exact .pure _
  | p :: more =>
      obtain ⟨hp, hmore⟩ := h.parts
      unfold patterns
      exact (pattern_answers p hp).node₂ (patterns_answers more hmore)

theorem patternProps_answers (props : List PatternProp) (h : Immediate (Node.ofPatternProps props)) :
    Answers out (patternProps props) (normalPatternProps props) (usesOfPatternProps props) [] := by
  match props with
  | [] => unfold patternProps; exact .pure _
  | .init k target shorthand :: more =>
      obtain ⟨hk, hrest⟩ := h.parts
      obtain ⟨htarget, hmore⟩ := hrest.parts
      unfold patternProps
      exact (key_answers k hk).andThen ((pattern_answers target htarget).node₂ (patternProps_answers more hmore))
  | .rest target :: more =>
      obtain ⟨htarget, hmore⟩ := h.parts
      unfold patternProps
      exact (pattern_answers target htarget).node₂ (patternProps_answers more hmore)

theorem block_answers (b : Block) (h : Immediate (Node.ofBlock b)) : Answers out (block b) b.normal b.uses [] := by
  match b with
  | .mk stmts span => unfold block; exact (inScope_answers (statements_answers stmts h)).node

theorem statements_answers (stmts : List Stmt) (h : Immediate (Node.ofStmts stmts)) :
    Answers out (statements stmts) (normalStmts stmts) (usesOfStmts stmts) (stmts.flatMap Stmt.boundNames) := by
  match stmts with
  | [] => unfold statements; exact .pure _
  | s :: more =>
      obtain ⟨hs, hmore⟩ := h.parts
      unfold statements
      exact (statement_answers s hs).bind (statements_answers more hmore).node

theorem statement_answers (s : Stmt) (h : Immediate (Node.ofStmt s)) :
    Answers out (statement s) s.normal s.uses s.boundNames := by
  match s with
  | .declare (.mk kind ds dspan) span =>
      rw [statement_declare]
      exact declaration_answers kind span [] ds h.below
  | .expr e span =>
      rw [statement_expr]
      exact placed_answers (inPlace_answers (expr_answers e h.below)).node
  | .return (some e) span =>
      rw [statement_return]
      exact placed_answers (inPlace_answers (expr_answers e h.below)).node
  | .return none span => exact .pure _
  | .cond test yes none span =>
      obtain ⟨htest, hbranches⟩ := h.below.parts
      obtain ⟨hyes, -⟩ := hbranches.parts
      rw [statement_cond]
      simp only [bodyOf_eq_braced]
      have hbranch := (inScope_answers (statement_answers yes hyes)).congr (List.append_nil _).symm rfl
      exact placed_answers ((inPlace_answers (expr_answers test htest)).node₂ hbranch)
  | .cond test yes (some no) span =>
      obtain ⟨htest, hbranches⟩ := h.below.parts
      obtain ⟨hyes, hno⟩ := hbranches.parts
      rw [statement_cond_else]
      simp only [bodyOf_eq_braced]
      exact placed_answers ((inPlace_answers (expr_answers test htest)).andThen
        ((inScope_answers (statement_answers yes hyes)).node₂ (inScope_answers (statement_answers no hno))))
  | .while test body span =>
      obtain ⟨htest, hbody⟩ := h.below.parts
      rw [statement_while]
      simp only [bodyOf_eq_braced]
      exact placed_answers ((lazily_answers (expr_answers test htest)).node₂
        (inScope_answers (statement_answers body hbody)))
  | .doWhile body test span =>
      obtain ⟨hbody, htest⟩ := h.below.parts
      rw [statement_doWhile]
      simp only [bodyOf_eq_braced]
      exact placed_answers ((inScope_answers (statement_answers body hbody)).node₂
        (lazily_answers (expr_answers test htest)))
  | .for init test update body span =>
      obtain ⟨hinit, hrest⟩ := h.below.parts
      obtain ⟨htest, hrest⟩ := hrest.parts
      obtain ⟨hupdate, hbody⟩ := hrest.parts
      rw [statement_for]
      simp only [bodyOf_eq_braced]
      exact placed_answers (inScope_answers ((forInit_answers init hinit).bind
        ((lazyOption_answers test htest).andThen
          ((lazyOption_answers update hupdate).node₂ (inScope_answers (statement_answers body hbody))))))
  | .block b =>
      rw [statement_block]
      exact placed_answers (block_answers b h.below).node
  | .break _ | .continue _ | .debugger _ | .empty _ | .function _ => exact .pure _

theorem lazyOption_answers (e? : Option Expr) (h : Immediate (Node.ofOption e?)) :
    Answers out (optionally (fun e => lazily (expr e)) e?) (normalOption e?) (usesOfOption e?) [] := by
  match e? with
  | none => exact .pure _
  | some e => exact (lazily_answers (expr_answers e h)).node

theorem valueOption_answers (e? : Option Expr) (h : Immediate (Node.ofOption e?)) :
    Answers out (optionally (fun e => inPlace (expr e)) e?) (normalOption e?) (usesOfOption e?) [] := by
  match e? with
  | none => exact .pure _
  | some e => exact (inPlace_answers (expr_answers e h)).node

theorem forInit_answers (init : ForInit) (h : Immediate (Node.ofForInit init)) :
    Answers out (forInit init) init.normal init.uses init.boundNames := by
  match init with
  | .absent => exact .pure _
  | .expr e => exact (inPlace_answers (expr_answers e h)).node
  | .declare (.mk kind [] span) => exact .pure _
  | .declare (.mk kind (.mk target init dspan :: more) span) =>
      obtain ⟨htarget, hrest⟩ := h.parts
      obtain ⟨hinit, hmore⟩ := hrest.parts
      have hd := parts_answers dspan (pattern_answers target htarget) (valueOption_answers init hinit) hinit
      rw [forInit_declare]
      exact (hd.bind (lazyDeclarators_answers more hmore).node).congr (List.append_assoc _ _ _) rfl

theorem lazyDeclarators_answers (ds : List Declarator) (h : Immediate (Node.ofDeclarators ds)) :
    Answers out (lazyDeclarators ds) (normalDeclarators ds) (usesOfDeclarators ds)
      (ds.flatMap Declarator.boundNames) := by
  match ds with
  | [] => exact .pure _
  | .mk target init span :: more =>
      obtain ⟨htarget, hrest⟩ := h.parts
      obtain ⟨hinit, hmore⟩ := hrest.parts
      have hd := parts_answers span (pattern_answers target htarget) (lazyOption_answers init hinit) hinit
      rw [lazyDeclarators_cons]
      exact (hd.bind (lazyDeclarators_answers more hmore).node).congr (List.append_assoc _ _ _) rfl

/-- No declarator needs declarations in front, so the statement is not split. -/
theorem declaration_answers (kind : DeclKind) (span : Span) (waiting ds : List Declarator)
    (h : Immediate (Node.ofDeclarators ds)) :
    Answers out (declaration kind span waiting ds)
      (if waiting.isEmpty && ds.isEmpty then []
        else [.declare (.mk kind (waiting ++ normalDeclarators ds) span) span])
      (usesOfDeclarators ds) (ds.flatMap Declarator.boundNames) := by
  match ds with
  | [] =>
      unfold declaration
      rw [List.isEmpty_nil, Bool.and_true, normalDeclarators, List.append_nil]
      exact .pure _
  | .mk target init dspan :: more =>
      obtain ⟨htarget, hrest⟩ := h.parts
      obtain ⟨hinit, hmore⟩ := hrest.parts
      have hd := parts_answers dspan (pattern_answers target htarget) (valueOption_answers init hinit) hinit
      have hrow := declaration_answers kind span (waiting ++ [Declarator.mk target.normal (normalOption init) dspan]) more hmore
      rw [declaration_cons]
      refine ((collecting_answers hd).bind (hrow.last ?_)).congr (List.append_assoc _ _ _) rfl
      simp [normalDeclarators]

end

/-- What the walk makes of a whole body. -/
theorem visited_answers {body : Expr} {capabilities : Capabilities} (args : List String)
    (hbody : Immediate body.nodes) (hcalls : ∀ name, .call name ∈ body.uses → capabilities.isAsync name = false) :
    (visited body capabilities args).1 = [returning body.normal] ∧
      ∀ name, name ∈ (visited body capabilities args).2.helpers ↔ .read name ∈ body.uses ∧
        IsPreludes ⟨capabilities, args⟩ State.start.locals name := by
  have hstmt : Immediate (Node.ofStmt (returning body)) := .node rfl hbody
  have hwalk : Answers ⟨capabilities, args⟩ (inScope (statement (returning body))) (returning body).normal
      (returning body).uses [] := inScope_answers (statement_answers (returning body) hstmt)
  obtain ⟨hresult, hnoted⟩ := hwalk State.start (fun _ => rfl) fun name hname _ => hcalls name hname
  refine ⟨?_, fun name => ?_⟩
  · rw [returning, Expr.span_normal]
    exact hresult
  · refine (hnoted.helpers name).trans ⟨fun h => h.resolve_left List.not_mem_nil, .inr⟩

end FieldScript.Settle

namespace FieldScript

open Settle

variable {body : Expr} {capabilities : Capabilities}

/-- What settling makes of a body in which nothing waits, and the functions of the prelude that it puts in front. -/
theorem settle_answers (args : List String) (hbody : Immediate body.nodes)
    (hcalls : ∀ name, .call name ∈ body.uses → capabilities.isAsync name = false) :
    ∃ helpers, (Prelude.names.filter fun name =>
        .read name ∈ body.uses && !capabilities.contains name && !args.contains name).mapM Prelude.declaration =
          .ok helpers ∧
      settle body capabilities args = .ok (.mk (helpers ++ [returning body.normal]) body.span) := by
  obtain ⟨hresult, hhelpers⟩ := visited_answers args hbody hcalls
  have hneeded : needed body capabilities args = Prelude.names.filter fun name =>
      .read name ∈ body.uses && !capabilities.contains name && !args.contains name := by
    refine List.filter_congr fun name hname => ?_
    have hprelude : Prelude.contains name = true := List.contains_iff_mem.2 hname
    have hfree : State.start.locals.contains name = false := rfl
    rw [Bool.eq_iff_iff, List.contains_iff_mem, hhelpers name, IsPreludes, hprelude, hfree]
    simp only [Bool.and_eq_true, Bool.not_eq_true', decide_eq_true_eq, true_and, and_assoc]
  have hnames : ∀ name ∈ needed body capabilities args, name ∈ Prelude.names :=
    fun name hname => (List.mem_filter.1 hname).1
  obtain ⟨helpers, hmap, -⟩ := Prelude.exists_mapM_declaration hnames
  refine ⟨helpers, hneeded ▸ hmap, ?_⟩
  rw [← hresult]
  show (do
    let declarations ← (needed body capabilities args).mapM Prelude.declaration
    return Block.mk (declarations ++ (visited body capabilities args).1) body.span) = _
  rw [hmap]
  rfl

/-- A body in which nothing waits, and which calls no asynchronous capability, is left alone: behind the functions of
the prelude to which it refers, its normal form is returned, and nothing waits there. -/
theorem settle_normal (args : List String) (hbody : Immediate body.nodes)
    (hcalls : ∀ name, .call name ∈ body.uses → capabilities.isAsync name = false) :
    ∃ helpers, (Prelude.names.filter fun name =>
        .read name ∈ body.uses && !capabilities.contains name && !args.contains name).mapM Prelude.declaration =
          .ok helpers ∧
      settle body capabilities args = .ok (.mk (helpers ++ [returning body.normal]) body.span) ∧
      Immediate body.normal.nodes := by
  obtain ⟨helpers, hmap, hsettle⟩ := settle_answers args hbody hcalls
  exact ⟨helpers, hmap, hsettle, body.immediate_normal hbody⟩

/-- The body `use(x => x.y, get => { if (get) get(); })`. -/
def shadowedCall : Expr :=
  let s := Span.point 0
  let get := Expr.identifier "get" s
  let access := Expr.member (.identifier "x" s) (.name ⟨"y", s⟩) false s
  let call := Stmt.expr (.call get [] false s) s
  .call (.identifier "use" s)
    [.expr (.arrow [.ident ⟨"x", s⟩] (.expr access) false s),
      .expr (.arrow [.ident ⟨"get", s⟩] (.block (.mk [.cond get call none s] s)) false s)] false s

/-- A parameter hides the asynchronous capability, so nothing waits: the access is returned from a block, and the branch
gets its braces. -/
theorem shadowedCall_normal :
    let s := Span.point 0
    let get := Expr.identifier "get" s
    let access := Expr.member (.identifier "x" s) (.name ⟨"y", s⟩) false s
    let call := Stmt.expr (.call get [] false s) s
    Immediate shadowedCall.nodes ∧
    (∀ name, .call name ∈ shadowedCall.uses → (⟨[("get", true)]⟩ : Capabilities).isAsync name = false) ∧
    ∃ helpers, ["use"].mapM Prelude.declaration = .ok helpers ∧
      settle shadowedCall ⟨[("get", true)]⟩ [] = .ok (.mk (helpers ++ [Stmt.return (some (.call (.identifier "use" s)
        [.expr (.arrow [.ident ⟨"x", s⟩] (.block (.mk [.return (some access) s] s)) false s),
          .expr (.arrow [.ident ⟨"get", s⟩] (.block (.mk [.cond get (.block (.mk [call] s)) none s] s)) false s)]
        false s)) s]) s) := by
  intro s get access call
  have hbody : Immediate shadowedCall.nodes := by
    unfold Immediate
    decide
  have huses : shadowedCall.uses = [.call "use", .read "use"] := by decide
  have hcalls : ∀ name, .call name ∈ shadowedCall.uses → (⟨[("get", true)]⟩ : Capabilities).isAsync name = false := by
    intro name hname
    rw [huses, List.mem_cons, List.mem_singleton] at hname
    obtain hname | hname := hname
    · cases hname
      rfl
    · cases hname
  obtain ⟨helpers, hhelpers, hsettle, -⟩ := settle_normal [] hbody hcalls
  have hneeded : (Prelude.names.filter fun name => .read name ∈ shadowedCall.uses &&
      !(⟨[("get", true)]⟩ : Capabilities).contains name && !([] : List String).contains name) = ["use"] := by
    rw [huses]
    decide
  rw [hneeded] at hhelpers
  exact ⟨hbody, hcalls, helpers, hhelpers, hsettle⟩

end FieldScript
