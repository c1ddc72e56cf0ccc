import FieldScript.Proofs.Settle.AwaitedParts
import FieldScript.Proofs.Settle.Helpers
import FieldScript.Validate

/-!
# Every asynchronous call is awaited

The walk over a body is followed case by case, and each case says what its part of the settled tree is
like in every scope that has the local names of the walk.

## Strategy

* Expressions, patterns and all that stands in them are `Sound`. The only case that reads a name is a
  call, and what rendering takes for an asynchronous capability there, settling took for one.
* Statements pass (`Passes`), parameters bind the same names (`Takes`), and the header of a loop opens
  it (`Opens`).
-/

namespace FieldScript.Awaited

open Settle (Walk State Visited inPlace lazily asObject startsAsync)
open Settle.Walk (Ensures)

variable {v : View} {s s' : State} {l g : Locals} {F : Locals → Stmt → Prop}

/-! ## Calls -/

/-- Visiting makes no identifiers but out of themselves. -/
theorem expr_identifier (out : Settle.Outside) (e : Expr) (s : State) :
    Ensures (Settle.expr e) out s fun r _ =>
      ∀ name span, r.1 = .identifier name span → e = .identifier name span := by
  cases e with
  | call callee args optional span =>
      unfold Settle.expr
      refine Ensures.skip fun capability s' => Ensures.skip fun callee s' => Ensures.skip fun args s' => ?_
      exact Ensures.ite (fun _ _ _ h => Expr.noConfusion h) fun _ _ _ h => Expr.noConfusion h
  | sequence es span =>
      unfold Settle.expr
      split
      · exact fun _ _ h => Expr.noConfusion h
      · exact Ensures.skip fun e s' => Ensures.skip fun more s' => fun _ _ h => Expr.noConfusion h
  | identifier name span =>
      unfold Settle.expr
      exact Ensures.skip fun _ s' name span h => h
  | literal lit span => unfold Settle.expr; exact fun _ _ h => Expr.noConfusion h
  | this span => unfold Settle.expr; exact fun _ _ h => Expr.noConfusion h
  | function fn => unfold Settle.expr; exact fun _ _ h => Expr.noConfusion h
  | template parts es span => unfold Settle.expr; exact Ensures.skip fun _ _ => fun _ _ h => Expr.noConfusion h
  | array es span => unfold Settle.expr; exact Ensures.skip fun _ _ => fun _ _ h => Expr.noConfusion h
  | object ps span => unfold Settle.expr; exact Ensures.skip fun _ _ => fun _ _ h => Expr.noConfusion h
  | arrow ps body isAsync span => unfold Settle.expr; exact Ensures.skip fun _ _ => fun _ _ h => Expr.noConfusion h
  | unary op e span => unfold Settle.expr; exact Ensures.skip fun _ _ => fun _ _ h => Expr.noConfusion h
  | update op before target span => unfold Settle.expr; exact Ensures.skip fun _ _ => fun _ _ h => Expr.noConfusion h
  | await e span =>
      unfold Settle.expr
      exact Ensures.skip fun _ _ => Ensures.skip fun _ _ => fun _ _ h => Expr.noConfusion h
  | member object k optional span =>
      unfold Settle.expr
      exact Ensures.skip fun _ _ => Ensures.skip fun _ _ => fun _ _ h => Expr.noConfusion h
  | binary op left right span =>
      unfold Settle.expr
      exact Ensures.skip fun _ _ => Ensures.skip fun _ _ => fun _ _ h => Expr.noConfusion h
  | logical op left right span =>
      unfold Settle.expr
      exact Ensures.skip fun _ _ => Ensures.skip fun _ _ => fun _ _ h => Expr.noConfusion h
  | assign op target value span =>
      unfold Settle.expr
      exact Ensures.skip fun _ _ => Ensures.skip fun _ _ => fun _ _ h => Expr.noConfusion h
  | conditional test yes no span =>
      unfold Settle.expr
      exact Ensures.skip fun _ _ => Ensures.skip fun _ _ => Ensures.skip fun _ _ => fun _ _ h => Expr.noConfusion h

theorem inPlace_identifier (out : Settle.Outside) (e : Expr) (s : State) :
    Ensures (inPlace (Settle.expr e)) out s fun r _ =>
      ∀ name span, r = .identifier name span → e = .identifier name span := by
  refine Settle.inPlace_ensures (expr_identifier out e s) ?_ ?_
  · intro e s' _ name span h
    exact Expr.noConfusion h
  · intro e s' h
    exact h

/-- What is written as a call of an asynchronous capability is seen to be one. -/
theorem callsAsync_sound (callee : Expr) :
    Sound v F (Settle.callsAsync callee) fun capability g =>
      Render.callsAsync v.out g callee = true → capability = true := by
  intro s
  refine Settle.callsAsync_ensures (Visits.refl fun g hg hcalls => ?_)
  exact startsAsync_of_callsAsync hg hcalls

theorem noteName_sound (name : String) : Sound v F (Settle.noteName name) fun _ _ => True :=
  fun _ => Settle.noteName_ensures fun _ => ⟨rfl, ⟨[], by simp⟩, fun _ _ => trivial⟩

/-- An expression may get an `await` in front. -/
theorem expr_underAwait {e : Expr} (h : expr v g false e = true) : expr v g true e = true := by
  cases e with
  | call callee args optional span =>
      simp only [expr, Bool.and_eq_true, Bool.true_or] at h ⊢
      exact ⟨⟨trivial, h.1.2⟩, h.2⟩
  | await e span => exact h
  | _ => simp_all only [expr]

/-- A call whose parts have been visited. -/
theorem call_holds {callee callee' : Expr} {args : List Item} {optional underAwait : Bool} {span : Span}
    (hasync : Render.callsAsync v.out g callee = true → underAwait = true)
    (hcallee : expr v g false callee' = true)
    (hname : ∀ name span, callee' = .identifier name span → callee = .identifier name span)
    (hargs : items v g args = true) : expr v g underAwait (.call callee' args optional span) = true := by
  have hdirect : Render.callsAsync v.out g callee' = true → underAwait = true := by
    intro hcalls
    cases callee' with
    | identifier name span => exact hasync (hname name span rfl ▸ hcalls)
    | _ => simp [Render.callsAsync] at hcalls
  simp only [expr, hcallee, hargs, Bool.and_true, Bool.or_eq_true, Bool.not_eq_true']
  cases hcalls : Render.callsAsync v.out g callee' with
  | false => exact .inr rfl
  | true => exact .inl (hdirect hcalls)

/-- A call of a method is no call of a capability, so an array of its results may be joined. -/
theorem joinAll_holds {callee : Expr} {args : List Item} {optional : Bool} {span : Span}
    (hmap : Settle.isMap callee = true) (hcallee : expr v g false callee = true)
    (hargs : items v g args = true) :
    expr v g true (Settle.joinAll (.call callee args optional span)) = true := by
  have hcalls : Render.callsAsync v.out g callee = false := by
    cases callee with
    | member o k optional span => rfl
    | _ => simp [Settle.isMap] at hmap
  simp [Settle.joinAll, expr, items, key, hcalls, hcallee, hargs]

/-- A member access is never pending. -/
theorem member_ready (out : Settle.Outside) (o : Expr) (k : Key) (optional : Bool) (span : Span)
    (s : State) :
    Ensures (Settle.expr (.member o k optional span)) out s fun r _ => r.2 = false := by
  unfold Settle.expr
  exact Ensures.skip fun _ _ => Ensures.skip fun _ _ => rfl

/-! ## The walk -/

mutual

theorem expr_sound (e : Expr) (he : ∀ n ∈ Node.ofExpr e, v.admits n = true) :
    Sound v (Front v) (Settle.expr e) fun r g => expr v g r.2 r.1 = true := by
  cases e with
  | call callee args optional span =>
      simp only [Node.ofExpr, List.forall_mem_cons, List.forall_mem_append] at he
      have hcallee := (inPlace_sound (expr_sound callee he.2.1)).and_ensures
        (inPlace_identifier v.walk callee)
      unfold Settle.expr
      refine (callsAsync_sound callee).bind fun capability => hcallee.bind fun callee' =>
        (items_sound args he.2.2).bind fun args' => ?_
      refine Sound.ite (fun hparallel => Sound.pure ?_) fun _ => Sound.pure ?_
      · intro g hargs ⟨hcallee, _⟩ _
        exact joinAll_holds (Bool.and_eq_true_iff.1 hparallel).1 hcallee hargs
      · intro g hargs ⟨hcallee, hname⟩ hasync
        exact call_holds (fun h => by simp [hasync h]) hcallee hname hargs
  | literal lit span => unfold Settle.expr; exact Sound.pure fun g => by simp only [expr]
  | this span => unfold Settle.expr; exact Sound.pure fun g => by simp only [expr]
  | function fn => unfold Settle.expr; exact Sound.pure fun g => by simp only [expr]
  | identifier name span =>
      unfold Settle.expr
      exact (noteName_sound name).bind fun _ => Sound.pure fun g _ => by simp only [expr]
  | template parts es span =>
      simp only [Node.ofExpr, List.forall_mem_cons] at he
      unfold Settle.expr
      exact (values_sound es he.2).bind fun es' => Sound.pure fun g hes => by simp only [expr, hes]
  | array es span =>
      simp only [Node.ofExpr, List.forall_mem_cons] at he
      unfold Settle.expr
      exact (items_sound es he.2).bind fun es' => Sound.pure fun g hes => by simp only [expr, hes]
  | object ps span =>
      simp only [Node.ofExpr, List.forall_mem_cons] at he
      unfold Settle.expr
      exact (properties_sound ps he.2).bind fun ps' => Sound.pure fun g hps => by simp only [expr, hps]
  | member object k optional span =>
      simp only [Node.ofExpr, List.forall_mem_cons, List.forall_mem_append] at he
      unfold Settle.expr
      refine (asObject_sound (expr_sound object he.2.1)).bind fun object' =>
        (key_sound k he.2.2).bind fun k' => Sound.pure fun g hk hobject => ?_
      simp only [expr, hk, hobject, Bool.and_true]
  | arrow ps body isAsync span =>
      simp only [Node.ofExpr, List.forall_mem_cons, List.forall_mem_append] at he
      unfold Settle.expr
      intro s
      refine Ensures.bind (M := fun r s' => Visits (Front v) s s' fun g =>
        params v g.push r.1.1 = true ∧
          arrowBody v (g.push.declareAll (Pattern.boundNamesOf r.1.1)) r.1.2 = true)
        (Settle.framed_ensures (Settle.inScope_ensures ?_)) ?_
      · refine Ensures.bind (params_takes false ps he.2.1 _) ?_
        rintro ⟨ps', moved⟩ s₁ htakes
        refine Ensures.bind (arrowBody_sound span body he.2.2 s₁) fun body' s₂ hbody => ?_
        refine Ensures.pure
          ⟨(congrArg Locals.pop hbody.locals).trans htakes.scope, ⟨[], ?_⟩, fun g hg => ?_⟩
        · simpa using hbody.hoisted_eq.trans htakes.hoisted
        · exact arrow_holds htakes hbody.holds hg.push_left.push_right
      · rintro ⟨⟨ps', body'⟩, awaits⟩ s' hv
        refine Ensures.pure ⟨hv.locals, hv.hoisted, fun g hg => ?_⟩
        obtain ⟨hps, hbody⟩ := hv.holds g hg
        simp only [expr, hps, hbody, Bool.and_true]
  | await e span =>
      simp only [Node.ofExpr, List.forall_mem_cons] at he
      unfold Settle.expr
      refine (inPlace_sound (expr_sound e he.2)).bind fun e' => Sound.markAwait.bind fun _ =>
        Sound.pure fun g _ he => ?_
      simpa only [expr] using expr_underAwait he
  | unary op e span =>
      simp only [Node.ofExpr, List.forall_mem_cons] at he
      unfold Settle.expr
      exact (inPlace_sound (expr_sound e he.2)).bind fun e' => Sound.pure fun g h => by
        simp only [expr, h]
  | update op before target span =>
      simp only [Node.ofExpr, List.forall_mem_cons] at he
      unfold Settle.expr
      exact (pattern_sound target he.2 fun _ _ _ h => h).bind fun target' => Sound.pure fun g h => by
        simp only [expr, h]
  | binary op left right span =>
      simp only [Node.ofExpr, List.forall_mem_cons, List.forall_mem_append] at he
      unfold Settle.expr
      refine (inPlace_sound (expr_sound left he.2.1)).bind fun left' =>
        (inPlace_sound (expr_sound right he.2.2)).bind fun right' => Sound.pure fun g hright hleft => ?_
      simp only [expr, hleft, hright, Bool.and_true]
  | logical op left right span =>
      simp only [Node.ofExpr, List.forall_mem_cons, List.forall_mem_append] at he
      unfold Settle.expr
      refine (inPlace_sound (expr_sound left he.2.1)).bind fun left' =>
        (lazily_sound (expr_sound right he.2.2)).bind fun right' => Sound.pure fun g hright hleft => ?_
      simp only [expr, hleft, hright, Bool.and_true]
  | conditional test yes no span =>
      simp only [Node.ofExpr, List.forall_mem_cons, List.forall_mem_append] at he
      unfold Settle.expr
      refine (inPlace_sound (expr_sound test he.2.1)).bind fun test' =>
        (lazily_sound (expr_sound yes he.2.2.1)).bind fun yes' =>
          (lazily_sound (expr_sound no he.2.2.2)).bind fun no' => Sound.pure fun g hno hyes htest => ?_
      simp only [expr, htest, hyes, hno, Bool.and_true]
  | assign op target value span =>
      simp only [Node.ofExpr, List.forall_mem_cons, List.forall_mem_append] at he
      unfold Settle.expr
      refine (pattern_sound target he.2.1 fun _ _ _ h => h).bind fun target' =>
        (inPlace_sound (expr_sound value he.2.2)).bind fun value' =>
          Sound.pure fun g hvalue htarget => ?_
      simp only [expr, htarget, hvalue, Bool.and_true]
  | sequence es span =>
      cases es with
      | nil => unfold Settle.expr; exact Sound.pure fun g => by simp only [expr, exprs]
      | cons e more =>
          simp only [Node.ofExpr, Node.ofExprs, List.forall_mem_cons, List.forall_mem_append] at he
          unfold Settle.expr
          refine (inPlace_sound (expr_sound e he.2.1)).bind fun e' =>
            (lazyValues_sound more he.2.2).bind fun more' => Sound.pure fun g hmore hfirst => ?_
          simp only [expr, exprs, hfirst, hmore, Bool.and_true]

theorem values_sound (es : List Expr) (hes : ∀ n ∈ Node.ofExprs es, v.admits n = true) :
    Sound v (Front v) (Settle.values es) fun es g => exprs v g es = true := by
  cases es with
  | nil => unfold Settle.values; exact Sound.pure fun g => by simp only [exprs]
  | cons e more =>
      simp only [Node.ofExprs, List.forall_mem_append] at hes
      unfold Settle.values
      refine (inPlace_sound (expr_sound e hes.1)).bind fun e' =>
        (values_sound more hes.2).bind fun more' => Sound.pure fun g hmore he => ?_
      simp only [exprs, he, hmore, Bool.and_true]

theorem lazyValues_sound (es : List Expr) (hes : ∀ n ∈ Node.ofExprs es, v.admits n = true) :
    Sound v (Front v) (Settle.lazyValues es) fun es g => exprs v g es = true := by
  cases es with
  | nil => unfold Settle.lazyValues; exact Sound.pure fun g => by simp only [exprs]
  | cons e more =>
      simp only [Node.ofExprs, List.forall_mem_append] at hes
      unfold Settle.lazyValues
      refine (lazily_sound (expr_sound e hes.1)).bind fun e' =>
        (lazyValues_sound more hes.2).bind fun more' => Sound.pure fun g hmore he => ?_
      simp only [exprs, he, hmore, Bool.and_true]

theorem items_sound (es : List Item) (hes : ∀ n ∈ Node.ofItems es, v.admits n = true) :
    Sound v (Front v) (Settle.items es) fun es g => items v g es = true := by
  match es with
  | [] => unfold Settle.items; exact Sound.pure fun g => by simp only [items]
  | .hole :: more =>
      simp only [Node.ofItems] at hes
      unfold Settle.items
      exact (items_sound more hes).bind fun more' => Sound.pure fun g hmore => by
        simp only [items, hmore]
  | .expr e :: more =>
      simp only [Node.ofItems, List.forall_mem_append] at hes
      unfold Settle.items
      refine (inPlace_sound (expr_sound e hes.1)).bind fun e' =>
        (items_sound more hes.2).bind fun more' => Sound.pure fun g hmore he => ?_
      simp only [items, he, hmore, Bool.and_true]
  | .spread e :: more =>
      simp only [Node.ofItems, List.forall_mem_append] at hes
      unfold Settle.items
      refine (inPlace_sound (expr_sound e hes.1)).bind fun e' =>
        (items_sound more hes.2).bind fun more' => Sound.pure fun g hmore he => ?_
      simp only [items, he, hmore, Bool.and_true]

theorem key_sound (k : Key) (hk : ∀ n ∈ Node.ofKey k, v.admits n = true) :
    Sound v (Front v) (Settle.key k) fun k g => key v g k = true := by
  cases k with
  | computed e =>
      simp only [Node.ofKey] at hk
      unfold Settle.key
      exact (inPlace_sound (expr_sound e hk)).bind fun e' => Sound.pure fun g he => by
        simp only [key, he]
  | name id => unfold Settle.key; exact Sound.pure fun g => by simp only [key]
  | literal lit => unfold Settle.key; exact Sound.pure fun g => by simp only [key]

theorem properties_sound (ps : List Property) (hps : ∀ n ∈ Node.ofProperties ps, v.admits n = true) :
    Sound v (Front v) (Settle.properties ps) fun ps g => properties v g ps = true := by
  match ps with
  | [] => unfold Settle.properties; exact Sound.pure fun g => by simp only [properties]
  | .spread e :: more =>
      simp only [Node.ofProperties, List.forall_mem_append] at hps
      unfold Settle.properties
      refine (inPlace_sound (expr_sound e hps.1)).bind fun e' =>
        (properties_sound more hps.2).bind fun more' => Sound.pure fun g hmore he => ?_
      simp only [properties, he, hmore, Bool.and_true]
  | .init k value shorthand span :: more =>
      simp only [Node.ofProperties, List.forall_mem_append] at hps
      unfold Settle.properties
      refine (key_sound k hps.1).bind fun k' =>
        (inPlace_sound (expr_sound value hps.2.1)).bind fun value' =>
          (properties_sound more hps.2.2).bind fun more' => Sound.pure fun g hmore he hk => ?_
      simp only [properties, hk, he, hmore, Bool.and_true]

theorem arrowBody_sound (span : Span) (body : ArrowBody)
    (hbody : ∀ n ∈ Node.ofArrowBody body, v.admits n = true) :
    Sound v Nothing (Settle.arrowBody span body) fun body g => bodyHolds v g body := by
  cases body with
  | expr e =>
      simp only [Node.ofArrowBody] at hbody
      unfold Settle.arrowBody
      exact exprBody_sound (expr_sound e hbody)
  | block b =>
      simp only [Node.ofArrowBody] at hbody
      unfold Settle.arrowBody
      exact (block_sound b hbody).bind fun b' => Sound.pure fun g hb => hb

theorem params_takes (moved : Bool) (ps : List Pattern)
    (hps : ∀ n ∈ Node.ofPatterns ps, v.admits n = true) (s : State) :
    Ensures (Settle.params moved ps) v.walk s fun r s' => Takes v s s' moved r := by
  cases ps with
  | nil => unfold Settle.params; exact Takes.nil
  | cons p more =>
      simp only [Node.ofPatterns, List.forall_mem_append] at hps
      unfold Settle.params
      refine Ensures.bind (param_ensures (pattern_sound p hps.1 fun _ _ _ h => h) moved s) ?_
      rintro ⟨p', decls⟩ s₁ ⟨hhoisted, hbinds⟩
      refine Ensures.bind (params_takes (moved || !decls.isEmpty) more hps.2 s₁) ?_
      rintro ⟨more', others⟩ s₂ htakes
      exact htakes.cons hhoisted hbinds

theorem pattern_sound {F : Locals → Stmt → Prop} (p : Pattern) (hp : ∀ n ∈ Node.ofPattern p, v.admits n = true)
    (hF : p.keyless = false → ∀ l d, Front v l d → F l d) :
    Sound v F (Settle.pattern p) fun p g => pattern v g p = true := by
  cases p with
  | ident id => unfold Settle.pattern; exact Sound.pure fun g => by simp only [pattern]
  | hole => unfold Settle.pattern; exact Sound.pure fun g => by simp only [pattern]
  | array elements span =>
      simp only [Node.ofPattern, List.forall_mem_cons] at hp
      unfold Settle.pattern
      exact (patterns_sound elements hp.2 hF).bind fun elements' => Sound.pure fun g h => by
        simp only [pattern, h]
  | object props span =>
      simp only [Node.ofPattern, List.forall_mem_cons] at hp
      unfold Settle.pattern
      exact (patternProps_sound props hp.2 hF).bind fun props' => Sound.pure fun g h => by
        simp only [pattern, h]
  | assign target default =>
      simp only [Node.ofPattern, List.forall_mem_cons, List.forall_mem_append] at hp
      unfold Settle.pattern
      refine (pattern_sound target hp.2.1 hF).bind fun target' =>
        (lazily_sound (expr_sound default hp.2.2)).bind fun default' =>
          Sound.pure fun g hdefault htarget => ?_
      simp only [pattern, htarget, hdefault, Bool.and_true]
  | rest target =>
      simp only [Node.ofPattern, List.forall_mem_cons] at hp
      unfold Settle.pattern
      exact (pattern_sound target hp.2 hF).bind fun target' => Sound.pure fun g h => by
        simp only [pattern, h]
  | member e =>
      simp only [Node.ofPattern, List.forall_mem_cons] at hp
      cases e with
      | member o k optional span =>
          have hready := (expr_sound (.member o k optional span) hp.2).and_ensures
            (member_ready v.walk o k optional span)
          unfold Settle.pattern
          refine (hready.weaken (hF rfl)).bind ?_
          rintro ⟨e', pending⟩
          refine Sound.pure fun g ⟨he, hpending⟩ => ?_
          simp only at hpending
          subst hpending
          simpa only [pattern] using he
      | _ => exact absurd hp.1 (by simp [View.admits, Node.namesMembers])

theorem patterns_sound {F : Locals → Stmt → Prop} (ps : List Pattern) (hps : ∀ n ∈ Node.ofPatterns ps, v.admits n = true)
    (hF : Pattern.keylessOf ps = false → ∀ l d, Front v l d → F l d) :
    Sound v F (Settle.patterns ps) fun ps g => patterns v g ps = true := by
  cases ps with
  | nil => unfold Settle.patterns; exact Sound.pure fun g => by simp only [patterns]
  | cons p more =>
      simp only [Node.ofPatterns, List.forall_mem_append] at hps
      unfold Settle.patterns
      refine (pattern_sound p hps.1 fun h => hF (by simp [Pattern.keylessOf, h])).bind fun p' =>
        (patterns_sound more hps.2 fun h => hF (by simp [Pattern.keylessOf, h])).bind fun more' =>
          Sound.pure fun g hmore hp => ?_
      simp only [patterns, hp, hmore, Bool.and_true]

theorem patternProps_sound {F : Locals → Stmt → Prop} (ps : List PatternProp)
    (hps : ∀ n ∈ Node.ofPatternProps ps, v.admits n = true)
    (hF : Pattern.keylessOfProps ps = false → ∀ l d, Front v l d → F l d) :
    Sound v F (Settle.patternProps ps) fun ps g => patternProps v g ps = true := by
  match ps with
  | [] => unfold Settle.patternProps; exact Sound.pure fun g => by simp only [patternProps]
  | .init k value shorthand :: more =>
      simp only [Node.ofPatternProps, List.forall_mem_append] at hps
      have hkey : Sound v F (Settle.key k) fun k g => key v g k = true := by
        cases k with
        | computed e => exact (key_sound (.computed e) hps.1).weaken (hF rfl)
        | name id => unfold Settle.key; exact Sound.pure fun g => by simp only [key]
        | literal lit => unfold Settle.key; exact Sound.pure fun g => by simp only [key]
      unfold Settle.patternProps
      refine hkey.bind fun k' =>
        (pattern_sound value hps.2.1 fun h => hF (by cases k <;> simp [Pattern.keylessOfProps, h])).bind
          fun value' => (patternProps_sound more hps.2.2 fun h =>
            hF (by cases k <;> simp [Pattern.keylessOfProps, h])).bind fun more' =>
              Sound.pure fun g hmore hvalue hk => ?_
      simp only [patternProps, hk, hvalue, hmore, Bool.and_true]
  | .rest target :: more =>
      simp only [Node.ofPatternProps, List.forall_mem_append] at hps
      unfold Settle.patternProps
      refine (pattern_sound target hps.1 fun h => hF (by simp [Pattern.keylessOfProps, h])).bind
        fun target' => (patternProps_sound more hps.2 fun h =>
          hF (by simp [Pattern.keylessOfProps, h])).bind fun more' =>
            Sound.pure fun g hmore htarget => ?_
      simp only [patternProps, htarget, hmore, Bool.and_true]

theorem block_sound {F : Locals → Stmt → Prop} (b : Block)
    (hb : ∀ n ∈ Node.ofBlock b, v.admits n = true) :
    Sound v F (Settle.block b) fun b g => statements v g b.stmts = true := by
  obtain ⟨stmts, span⟩ := b
  simp only [Node.ofBlock] at hb
  unfold Settle.block
  intro s
  refine Ensures.bind (M := fun outs s' => Visits F s s' fun g => statements v g outs = true)
    (Settle.inScope_ensures ((statements_passes stmts hb _).mono fun outs s' hp => ?_)) ?_
  · exact ⟨hp.scope, ⟨[], by simpa using hp.hoisted⟩, fun g hg => hp.flow.statements_eq hg.push_left⟩
  · intro outs s' hv
    exact hv

theorem statements_passes (ss : List Stmt) (hss : ∀ n ∈ Node.ofStmts ss, v.admits n = true)
    (s : State) : Ensures (Settle.statements ss) v.walk s fun outs s' => Passes v s s' outs := by
  cases ss with
  | nil => unfold Settle.statements; exact ⟨rfl, rfl, Flow.nil (Locals.Sub.refl _)⟩
  | cons stmt more =>
      simp only [Node.ofStmts, List.forall_mem_append] at hss
      unfold Settle.statements
      refine Ensures.bind (statement_passes stmt hss.1 s) fun outs s₁ hfirst =>
        Ensures.bind (statements_passes more hss.2 s₁) fun outs' s₂ hmore => ?_
      exact ⟨hmore.scope.trans hfirst.scope, hmore.hoisted.trans hfirst.hoisted,
        hfirst.flow.append hmore.flow⟩

theorem statement_passes (stmt : Stmt) (hstmt : ∀ n ∈ Node.ofStmt stmt, v.admits n = true)
    (s : State) : Ensures (Settle.statement stmt) v.walk s fun outs s' => Passes v s s' outs := by
  match stmt with
  | .declare (.mk kind ds dspan) span =>
      simp only [Node.ofStmt, Node.ofVarDecl, List.forall_mem_cons] at hstmt
      rw [Settle.statement_declare]
      refine (declaration_passes kind span [] ds hstmt.2 s).mono fun outs s' h => ?_
      exact ⟨h.1, h.2.1, h.2.2 _ (Waiting.nil _)⟩
  | .expr e span =>
      simp only [Node.ofStmt, List.forall_mem_cons] at hstmt
      rw [Settle.statement_expr]
      exact placed_passes ((inPlace_sound (expr_sound e hstmt.2)).bind fun e' => Sound.pure fun g he => by
        simp only [statement, he]) s
  | .return (some e) span =>
      simp only [Node.ofStmt, Node.ofOption, List.forall_mem_cons] at hstmt
      rw [Settle.statement_return]
      exact placed_passes ((inPlace_sound (expr_sound e hstmt.2)).bind fun e' => Sound.pure fun g he => by
        simp only [statement, optional, he]) s
  | .return none span =>
      exact passes_self fun g => by simp only [statement, optional]
  | .cond test yes none span =>
      simp only [Node.ofStmt, List.forall_mem_cons, List.forall_mem_append] at hstmt
      rw [Settle.statement_cond]
      refine placed_passes ((inPlace_sound (expr_sound test hstmt.2.1)).bind fun test' =>
        (branch_sound yes (statement_passes yes hstmt.2.2.1)).bind fun outs =>
          Sound.pure fun g hyes htest => ?_) s
      simp only [statement, htest, hyes, Bool.and_true]
  | .cond test yes (some no) span =>
      simp only [Node.ofStmt, List.forall_mem_cons, List.forall_mem_append] at hstmt
      rw [Settle.statement_cond_else]
      refine placed_passes ((inPlace_sound (expr_sound test hstmt.2.1)).bind fun test' =>
        (branch_sound yes (statement_passes yes hstmt.2.2.1)).bind fun outs =>
          (branch_sound no (statement_passes no hstmt.2.2.2)).upward.bind fun outs' =>
            Sound.pure fun g hno hyes htest => ?_) s
      simp only [statement, htest, hyes, hno _ (sub_behind g _), Bool.and_true]
  | .while test body span =>
      simp only [Node.ofStmt, List.forall_mem_cons, List.forall_mem_append] at hstmt
      rw [Settle.statement_while]
      refine placed_passes ((lazily_sound (expr_sound test hstmt.2.1)).bind fun test' =>
        (branch_sound body (statement_passes body hstmt.2.2)).bind fun outs =>
          Sound.pure fun g hbody htest => ?_) s
      simp only [statement, htest, hbody, Bool.and_true]
  | .doWhile body test span =>
      simp only [Node.ofStmt, List.forall_mem_cons, List.forall_mem_append] at hstmt
      rw [Settle.statement_doWhile]
      refine placed_passes ((branch_sound body (statement_passes body hstmt.2.1)).bind fun outs =>
        (lazily_sound (expr_sound test hstmt.2.2)).upward.bind fun test' =>
          Sound.pure fun g htest hbody => ?_) s
      simp only [statement, hbody, htest _ (sub_behind g _), Bool.and_true]
  | .for init test update body span =>
      simp only [Node.ofStmt, List.forall_mem_cons, List.forall_mem_append] at hstmt
      obtain ⟨hnode, hinit, htest, hupdate, hbody⟩ := hstmt
      rw [Settle.statement_for]
      exact loop_passes (forInit_opens init test update body span hnode hinit)
        (optional_sound test htest) (optional_sound update hupdate)
        (branch_sound body (statement_passes body hbody)) s
  | .block b =>
      simp only [Node.ofStmt, List.forall_mem_cons] at hstmt
      rw [Settle.statement_block]
      refine placed_passes ((block_sound b hstmt.2).upward.bind fun b' => Sound.pure fun g hb => ?_) s
      obtain ⟨stmts, span⟩ := b'
      exact hb _ (Locals.Sub.refl g).push_right
  | .break span => exact passes_self fun g => by simp only [statement]
  | .continue span => exact passes_self fun g => by simp only [statement]
  | .debugger span => exact passes_self fun g => by simp only [statement]
  | .empty span => exact passes_self fun g => by simp only [statement]
  | .function fn => exact passes_self fun g => by simp only [statement]

theorem optional_sound {F : Locals → Stmt → Prop} (e : Option Expr)
    (he : ∀ n ∈ Node.ofOption e, v.admits n = true) :
    Sound v F (Settle.optionally (fun e => lazily (Settle.expr e)) e) fun e g =>
      optional v g e = true := by
  cases e with
  | none => exact Sound.pure fun g => by simp only [optional]
  | some e =>
      simp only [Node.ofOption] at he
      exact (lazily_sound (expr_sound e he)).bind fun e' => Sound.pure fun g he => by
        simp only [optional, he]

theorem initial_sound (e : Option Expr) (he : ∀ n ∈ Node.ofOption e, v.admits n = true) :
    Sound v (Front v) (Settle.optionally (fun e => inPlace (Settle.expr e)) e) fun e g =>
      optional v g e = true := by
  cases e with
  | none => exact Sound.pure fun g => by simp only [optional]
  | some e =>
      simp only [Node.ofOption] at he
      exact (inPlace_sound (expr_sound e he)).bind fun e' => Sound.pure fun g he => by
        simp only [optional, he]

theorem forInit_opens (init : ForInit) (test update : Option Expr) (body : Stmt) (span : Span)
    (hnode : v.admits (.stmt (.for init test update body span)) = true)
    (hinit : ∀ n ∈ Node.ofForInit init, v.admits n = true) (s : State) :
    Ensures (Settle.forInit init) v.walk s fun init s' => Opens v s s' init := by
  match init with
  | .absent =>
      unfold Settle.forInit
      exact Ensures.pure
        ⟨rfl, ⟨[], by simp⟩, fun g _ => by simp only [forInit], fun g hg => hg⟩
  | .expr e =>
      simp only [Node.ofForInit] at hinit
      unfold Settle.forInit
      refine Ensures.bind (inPlace_sound (expr_sound e hinit) s) fun e' s' hv => Ensures.pure ?_
      obtain ⟨new, hnew, hF⟩ := hv.hoisted
      refine ⟨congrArg Locals.pop hv.locals, ⟨new, hnew, fun d hd => .inl (hF d hd)⟩, fun g hg => ?_,
        fun g hg => hv.locals ▸ hg⟩
      simp only [forInit, hv.holds g hg]
  | .declare (.mk kind [] dspan) =>
      unfold Settle.forInit
      exact Ensures.pure
        ⟨rfl, ⟨[], by simp⟩, fun g _ => by simp only [forInit, declarators], fun g hg => hg⟩
  | .declare (.mk kind (.mk target first dspan :: more) span') =>
      simp only [Node.ofForInit, Node.ofVarDecl, Node.ofDeclarators, List.forall_mem_append] at hinit
      have hlater : v.tolerant = false → more.all Declarator.keyless = true := by
        intro hstrict
        simpa [View.admits, Node.namesMembers, Node.keylessHeader, hstrict] using hnode
      rw [Settle.forInit_declare]
      refine Ensures.bind (declares dspan (pattern_sound target hinit.1 fun _ _ _ h => h)
        (initial_sound first hinit.2.1) s) fun d s₁ hd => ?_
      refine Ensures.bind (lazyDeclarators_heads more hlater hinit.2.2 s₁) fun more' s₂ hmore =>
        Ensures.pure ?_
      exact hmore.opens hd kind span'

theorem lazyDeclarators_heads (ds : List Declarator)
    (hkeyless : v.tolerant = false → ds.all Declarator.keyless = true)
    (hds : ∀ n ∈ Node.ofDeclarators ds, v.admits n = true) (s : State) :
    Ensures (Settle.lazyDeclarators ds) v.walk s fun ds s' => Heads v s s' ds := by
  match ds with
  | [] => unfold Settle.lazyDeclarators; exact Heads.nil
  | .mk target init span :: more =>
      simp only [Node.ofDeclarators, List.forall_mem_append] at hds
      simp only [List.all_cons, Bool.and_eq_true] at hkeyless
      have htarget : Sound v (fun l d => v.tolerant = true ∧ Front v l d) (Settle.pattern target)
          fun p g => pattern v g p = true := by
        refine pattern_sound target hds.1 fun hcomputed l d hd => ⟨?_, hd⟩
        cases hview : v.tolerant with
        | true => rfl
        | false => exact absurd (hkeyless hview).1 (by simp [Declarator.keyless, hcomputed])
      rw [Settle.lazyDeclarators_cons]
      refine Ensures.bind (declares span htarget (optional_sound init hds.2.1) s) fun d s₁ hd => ?_
      refine Ensures.bind (lazyDeclarators_heads more (fun h => (hkeyless h).2) hds.2.2 s₁)
        fun more' s₂ hmore => Ensures.pure ?_
      exact hmore.cons hd

theorem declaration_passes (kind : DeclKind) (span : Span) (waiting ds : List Declarator)
    (hds : ∀ n ∈ Node.ofDeclarators ds, v.admits n = true) (s : State) :
    Ensures (Settle.declaration kind span waiting ds) v.walk s fun outs s' =>
      s'.locals.pop = s.locals.pop ∧ s'.hoisted = s.hoisted ∧
        ∀ l, Waiting v l waiting s.locals → Flow v l outs s'.locals := by
  match ds with
  | [] =>
      unfold Settle.declaration
      refine Ensures.pure ⟨rfl, rfl, fun l hl => ?_⟩
      split
      · rename_i hnil
        rw [List.isEmpty_iff.1 hnil] at hl
        exact Flow.nil hl.names
      · exact hl.flow kind span
  | .mk target init dspan :: more =>
      simp only [Node.ofDeclarators, List.forall_mem_append] at hds
      rw [Settle.declaration_cons]
      have hd := declares dspan (pattern_sound target hds.1 fun _ _ _ h => h)
        (initial_sound init hds.2.1)
      refine Ensures.bind (M := fun r s' => s'.hoisted = s.hoisted ∧
        (∀ x ∈ r.2, Front v s.locals x) ∧ Declares v Nothing s s' r.1)
        (Settle.collecting_ensures ((hd _).mono fun d s' hd => ?_)) ?_
      · obtain ⟨new, hnew, hF⟩ := hd.hoisted
        rw [List.nil_append] at hnew
        refine ⟨rfl, ?_, hd.scope, ⟨[], by simp⟩, hd.holds, hd.names⟩
        simpa only [hnew] using hF
      rintro ⟨d, decls⟩ s₁ ⟨hhoisted, hfronts, hdeclares⟩
      refine Ensures.ite (fun _ => ?_) fun hwhole => ?_
      · -- the statement is split: what waits is declared, and then what this declarator needs
        refine (Ensures.bind (declaration_passes kind span [d] more hds.2.2 s₁) ?_)
        rintro outs s₂ ⟨hscope, hhoisted', hflow⟩
        refine Ensures.pure ⟨hscope.trans hdeclares.scope, hhoisted'.trans hhoisted, fun l hl => ?_⟩
        exact (hl.flow kind span).append
          ((Flow.fronts hfronts).append (hflow s.locals ((Waiting.nil s.locals).snoc hdeclares)))
      · refine (Ensures.bind (declaration_passes kind span (waiting ++ [d]) more hds.2.2 s₁) ?_)
        rintro outs s₂ ⟨hscope, hhoisted', hflow⟩
        refine Ensures.pure ⟨hscope.trans hdeclares.scope, hhoisted'.trans hhoisted, fun l hl => ?_⟩
        cases decls with
        | nil => exact hflow l (hl.snoc hdeclares)
        | cons x others =>
            cases waiting with
            | cons w others' => exact absurd rfl hwhole
            | nil =>
                refine ((Flow.fronts hfronts).mono hl.names (Locals.Sub.refl _)).append ?_
                exact hflow s.locals ((Waiting.nil s.locals).snoc hdeclares)

end

/-! ## Settled bodies -/

/-- Settling a body answers declarations of the prelude and a statement that is visited. -/
theorem settle_eq (body : Expr) (capabilities : Capabilities) (args : List String) :
    ∃ helpers, (∀ d ∈ helpers, ∃ name ∈ Prelude.names, Prelude.declaration name = .ok d) ∧
      ∃ stmts, settle body capabilities args = .ok (.mk (helpers ++ stmts) body.span) ∧
        ∀ post : List Stmt → Prop, Ensures (Settle.inScope (Settle.statement (Settle.returning body)))
          ⟨capabilities, args⟩ ⟨Locals.empty.push, false, [], 0, []⟩ (fun outs _ => post outs) →
            post stmts := by
  obtain ⟨helpers, hall, -, hsettle⟩ := settle_written body capabilities args
  refine ⟨helpers, fun d hd => ?_, _, hsettle, fun post hpost => hpost⟩
  obtain ⟨name, hname, hd, -⟩ := hall d hd
  exact ⟨name, (List.mem_filter.1 hname).1, hd⟩

/-- The statements that a body becomes, in every scope. -/
theorem statements_settled (v : View) (body : Expr) (hbody : ∀ n ∈ body.nodes, v.admits n = true)
    (l : Locals) :
    Ensures (Settle.inScope (Settle.statement (Settle.returning body))) v.walk
      ⟨Locals.empty.push, false, [], 0, []⟩ fun outs _ => statements v l outs = true := by
  have hreturn : ∀ n ∈ Node.ofStmt (Settle.returning body), v.admits n = true := by
    simp only [Settle.returning, Node.ofStmt, Node.ofOption, List.forall_mem_cons]
    exact ⟨by simp [View.admits, Node.namesMembers, Node.keylessHeader], hbody⟩
  refine Settle.inScope_ensures ((statement_passes _ hreturn _).mono fun outs s' hp => ?_)
  exact hp.flow.statements_eq fun name hname => by simp [Locals.contains, Locals.find?, Locals.push, Locals.empty] at hname

/-- A settled body is made of declarations of the prelude and of statements in which every call that is
written as a call of an asynchronous capability is the operand of an `await`, wherever the block stands.
The one exception are calls, in a temporary in front of a loop, of a name that the header of the loop
binds; there are none if no target behind the first one of a header has a computed key. -/
theorem settle_awaits_calls (body : Expr) (capabilities : Capabilities) (args : List String)
    (htargets : ∀ n ∈ body.nodes, n.namesMembers = true) :
    ∃ helpers stmts, settle body capabilities args = .ok (.mk (helpers ++ stmts) body.span) ∧
      (∀ d ∈ helpers, ∃ name ∈ Prelude.names, Prelude.declaration name = .ok d) ∧
      (∀ l, statements ⟨⟨capabilities, args⟩, true⟩ l stmts = true) ∧
      ((∀ n ∈ body.nodes, n.keylessHeader = true) →
        ∀ l, statements ⟨⟨capabilities, args⟩, false⟩ l stmts = true) := by
  obtain ⟨helpers, hhelpers, stmts, hsettle, hstmts⟩ := settle_eq body capabilities args
  refine ⟨helpers, stmts, hsettle, hhelpers, fun l => ?_, fun hkeyless l => ?_⟩
  · refine hstmts _ (statements_settled ⟨⟨capabilities, args⟩, true⟩ body (fun n hn => ?_) l)
    simp only [View.admits, htargets n hn, Bool.true_or, Bool.and_true]
  · refine hstmts _ (statements_settled ⟨⟨capabilities, args⟩, false⟩ body (fun n hn => ?_) l)
    simp only [View.admits, htargets n hn, hkeyless n hn, Bool.or_true, Bool.and_true]

/-- The function `n => { for (let get = x => x, { [fetch(get(n)).k]: y } = {}; false; ) {} }`. -/
def shadowingLoop : Expr :=
  let s := Span.point 0
  let name := fun x : String => Expr.identifier x s
  let call := fun (f : String) (e : Expr) => Expr.call (name f) [.expr e] false s
  let key := Expr.member (call "fetch" (call "get" (name "n"))) (.name ⟨"k", s⟩) false s
  let header := VarDecl.mk .let
    [.mk (.ident ⟨"get", s⟩) (some (.arrow [.ident ⟨"x", s⟩] (.expr (name "x")) false s)) s,
      .mk (.object [.init (.computed key) (.ident ⟨"y", s⟩) false] s) (some (.object [] s)) s] s
  let loop := Stmt.for (.declare header) (some (.literal ⟨.bool false, "false"⟩ s)) none
    (.block (.mk [] s)) s
  .arrow [.ident ⟨"n", s⟩] (.block (.mk [loop] s)) false s

/-- Two asynchronous capabilities. -/
def twoAsync : Capabilities := ⟨[("fetch", true), ("get", true)]⟩

/-- The key of a later target is computed in front of the loop, where `get` is not yet the name that
the header binds, and the call that was taken for a local one is not awaited. -/
theorem shadowingLoop_not_awaited :
    (shadowingLoop.validate twoAsync [] false).toOption = some () ∧
      (settle shadowingLoop twoAsync []).toOption.map
        (fun block => statements ⟨⟨twoAsync, []⟩, false⟩ Locals.empty block.stmts) = some false := by
  refine ⟨?_, ?_⟩
  · decide
  · decide

/-- In a view that counts the names of the header as bound there, nothing is wrong with it. -/
theorem shadowingLoop_tolerated :
    (∀ n ∈ shadowingLoop.nodes, n.namesMembers = true) ∧
      ∃ helpers stmts, settle shadowingLoop twoAsync [] = .ok (.mk (helpers ++ stmts) (.point 0)) ∧
        ∀ l, statements ⟨⟨twoAsync, []⟩, true⟩ l stmts = true := by
  have htargets : ∀ n ∈ shadowingLoop.nodes, n.namesMembers = true := by decide
  obtain ⟨helpers, stmts, hsettle, -, htolerant, -⟩ :=
    settle_awaits_calls shadowingLoop twoAsync [] htargets
  exact ⟨htargets, helpers, stmts, hsettle, htolerant⟩

end FieldScript.Awaited
