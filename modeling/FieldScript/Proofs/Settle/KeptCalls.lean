import FieldScript.Proofs.Settle.AwaitedCalls
import FieldScript.Proofs.Settle.Stays

/-!
# Work never leaves a position that may not be reached

The walk over a body is followed case by case. Visiting an expression or a pattern leaves its calls in
their zones (`Stays`), and visiting a function, a statement or anything else that is a zone leaves no
declarations at all (`Quiet`).
-/

namespace FieldScript.Settle

open Walk (Ensures)

/-! ## Calls -/

/-- Visiting an expression makes a name out of a name only, and a name is never pending. -/
theorem expr_name (e : Expr) (out : Outside) (s : State) :
    Ensures (expr e) out s fun r _ => r.1.name? = e.name? ∧ (r.2 = true → e.name? = none) := by
  cases e with
  | call callee args optional span =>
      unfold expr
      refine Ensures.skip fun capability s' => Ensures.skip fun callee s' => Ensures.skip fun args s' => ?_
      exact Ensures.ite (fun _ => ⟨rfl, fun _ => rfl⟩) fun _ => ⟨rfl, fun _ => rfl⟩
  | sequence es span =>
      unfold expr
      split
      · exact ⟨rfl, fun h => Bool.noConfusion h⟩
      · exact Ensures.skip fun e s' => Ensures.skip fun more s' => ⟨rfl, fun h => Bool.noConfusion h⟩
  | literal lit span => unfold expr; exact ⟨rfl, fun h => Bool.noConfusion h⟩
  | this span => unfold expr; exact ⟨rfl, fun h => Bool.noConfusion h⟩
  | function fn => unfold expr; exact ⟨rfl, fun h => Bool.noConfusion h⟩
  | identifier name span => unfold expr; exact Ensures.skip fun _ _ => ⟨rfl, fun h => Bool.noConfusion h⟩
  | template parts es span => unfold expr; exact Ensures.skip fun _ _ => ⟨rfl, fun h => Bool.noConfusion h⟩
  | array es span => unfold expr; exact Ensures.skip fun _ _ => ⟨rfl, fun h => Bool.noConfusion h⟩
  | object ps span => unfold expr; exact Ensures.skip fun _ _ => ⟨rfl, fun h => Bool.noConfusion h⟩
  | arrow ps body isAsync span => unfold expr; exact Ensures.skip fun _ _ => ⟨rfl, fun h => Bool.noConfusion h⟩
  | unary op e span => unfold expr; exact Ensures.skip fun _ _ => ⟨rfl, fun h => Bool.noConfusion h⟩
  | update op before target span => unfold expr; exact Ensures.skip fun _ _ => ⟨rfl, fun h => Bool.noConfusion h⟩
  | await e span => unfold expr; exact Ensures.skip fun _ _ => Ensures.skip fun _ _ => ⟨rfl, fun h => Bool.noConfusion h⟩
  | member object k optional span =>
      unfold expr
      exact Ensures.skip fun _ _ => Ensures.skip fun _ _ => ⟨rfl, fun h => Bool.noConfusion h⟩
  | binary op left right span =>
      unfold expr
      exact Ensures.skip fun _ _ => Ensures.skip fun _ _ => ⟨rfl, fun h => Bool.noConfusion h⟩
  | logical op left right span =>
      unfold expr
      exact Ensures.skip fun _ _ => Ensures.skip fun _ _ => ⟨rfl, fun h => Bool.noConfusion h⟩
  | assign op target value span =>
      unfold expr
      exact Ensures.skip fun _ _ => Ensures.skip fun _ _ => ⟨rfl, fun h => Bool.noConfusion h⟩
  | conditional test yes no span =>
      unfold expr
      exact Ensures.skip fun _ _ => Ensures.skip fun _ _ => Ensures.skip fun _ _ => ⟨rfl, fun h => Bool.noConfusion h⟩

theorem inPlace_name (e : Expr) (out : Outside) (s : State) :
    Ensures (inPlace (expr e)) out s fun e' _ => e'.name? = e.name? := by
  refine inPlace_ensures (expr_name e out s) ?_ fun e' s' h => h.1
  rintro e' s' ⟨_, hpending⟩
  exact (hpending rfl).symm

/-- Waiting for all results of a call adds a call of a method. -/
theorem kept_joinAll (call : Expr) : Kept (Sites.ofExpr call) (Sites.ofExpr (joinAll call)) := by
  have hsites : Sites.ofExpr (joinAll call) = Sites.ofExpr call + {⟨none, call.span, []⟩} := by
    simp only [joinAll, Sites.ofExpr, Sites.ofItems, Sites.ofKey, Expr.name?]
    abel
  rw [hsites]
  exact (Kept.refl _).grow fun c hc => by rw [Multiset.mem_singleton.1 hc]

/-- A function keeps the calls of its parameters, where they move into its body, and those of its body. -/
theorem kept_arrow {ps ps' : List Pattern} {moved : List Stmt} {body body' : ArrowBody}
    (hps : Kept (Sites.ofPatterns ps) (Sites.ofPatterns ps' + Sites.ofStmts moved))
    (hbody : Kept (Sites.ofArrowBody body) (Sites.ofArrowBody body')) (isAsync : Bool) (span : Span) :
    Kept (Sites.ofExpr (.arrow ps body isAsync span))
      (Sites.ofExpr (.arrow ps' (withMoved moved body' span) isAsync span)) := by
  simp only [Sites.ofExpr, ofArrowBody_withMoved, Sites.inside_add (.body span)]
  refine Kept.inside ?_ (.function span)
  rw [← add_assoc]
  refine Kept.add (hps.trans ?_) (hbody.inside _)
  exact (Kept.refl _).add (Kept.deeper _ _)

theorem arrow_quiet {ps : List Pattern} {body : ArrowBody} (isAsync : Bool) (span : Span)
    (hps : Quiet (params false ps) (Sites.ofPatterns ps) fun r => Sites.ofPatterns r.1 + Sites.ofStmts r.2)
    (hbody : Quiet (arrowBody span body) (Sites.ofArrowBody body) Sites.ofArrowBody) :
    Quiet (do
      let (ps, moved) ← params false ps
      let body ← arrowBody span body
      return (ps, withMoved moved body span)) (Sites.ofExpr (.arrow ps body isAsync span)) fun r =>
        Sites.ofExpr (.arrow r.1 r.2 isAsync span) := by
  refine hps.bind ?_
  rintro ⟨ps', moved⟩ hps'
  exact hbody.bind fun body' hbody' => Quiet.pure (kept_arrow hps' hbody' isAsync span)

/-! ## The walk -/

mutual

theorem expr_stays (e : Expr) : Stays (expr e) (Sites.ofExpr e) 0 fun r => Sites.ofExpr r.1 := by
  cases e with
  | call callee args optional span =>
      unfold expr
      have hsites : Sites.ofExpr (.call callee args optional span) =
          Sites.ofExpr callee + (Sites.ofItems args + {⟨callee.name?, span, []⟩}) := by
        simp only [Sites.ofExpr]
        abel
      refine Stays.skip (callsAsync_silent callee) fun capability => Stays.congr ?_ hsites
      refine (inPlace_stays (expr_stays callee)).bind_of (inPlace_name callee) fun callee' hname =>
        (items_stays args).bind fun args' => ?_
      have hcall : Kept (Sites.ofItems args' + (Sites.ofExpr callee' + 0) + {⟨callee.name?, span, []⟩})
          (Sites.ofExpr (.call callee' args' optional span)) := by
        rw [← hname, show Sites.ofItems args' + (Sites.ofExpr callee' + 0) + {⟨callee'.name?, span, []⟩} =
          Sites.ofExpr (.call callee' args' optional span) by simp only [Sites.ofExpr]; abel]
        exact Kept.refl _
      exact Stays.ite (fun _ => Stays.pure (hcall.trans (kept_joinAll _))) fun _ => Stays.pure hcall
  | literal lit span => unfold expr; exact Stays.made (by simp only [Sites.ofExpr])
  | this span => unfold expr; exact Stays.made (by simp only [Sites.ofExpr])
  | function fn => unfold expr; exact Stays.pure (by rw [zero_add]; exact Kept.refl _)
  | identifier name span =>
      unfold expr
      exact Stays.skip (noteName_silent name) fun _ => Stays.made (by simp only [Sites.ofExpr])
  | template parts es span =>
      unfold expr
      refine ((values_stays es).bind fun es' => Stays.made ?_).congr ?_ <;> simp only [Sites.ofExpr, add_zero]
  | array es span =>
      unfold expr
      refine ((items_stays es).bind fun es' => Stays.made ?_).congr ?_ <;> simp only [Sites.ofExpr, add_zero]
  | object ps span =>
      unfold expr
      refine ((properties_stays ps).bind fun ps' => Stays.made ?_).congr ?_ <;>
        simp only [Sites.ofExpr, add_zero]
  | member object k optional span =>
      unfold expr
      refine ((asObject_stays (expr_stays object)).bind fun object' => (key_stays k).bind fun k' =>
        Stays.made ?_).congr ?_ <;> simp only [Sites.ofExpr, add_zero]
      abel
  | arrow ps body isAsync span =>
      unfold expr
      have hparts := arrow_quiet isAsync span (params_quiet false ps) (arrowBody_quiet span body)
      refine Quiet.stays ((hparts.inScope.framed isAsync).bind ?_)
      rintro ⟨⟨ps', body'⟩, awaits⟩ hkept
      exact Quiet.pure hkept
  | await e span =>
      unfold expr
      refine ((inPlace_stays (expr_stays e)).bind fun e' => Stays.skip markAwait_silent fun _ =>
        Stays.made ?_).congr ?_ <;> simp only [Sites.ofExpr, add_zero]
  | unary op e span =>
      unfold expr
      refine ((inPlace_stays (expr_stays e)).bind fun e' => Stays.made ?_).congr ?_ <;>
        simp only [Sites.ofExpr, add_zero]
  | update op before target span =>
      unfold expr
      refine ((pattern_stays target).bind fun e' => Stays.made ?_).congr ?_ <;>
        simp only [Sites.ofExpr, add_zero]
  | binary op left right span =>
      unfold expr
      refine ((inPlace_stays (expr_stays left)).bind fun left' =>
        (inPlace_stays (expr_stays right)).bind fun right' => Stays.made ?_).congr ?_ <;>
        simp only [Sites.ofExpr, add_zero]
      abel
  | logical op left right span =>
      unfold expr
      refine ((inPlace_stays (expr_stays left)).bind fun left' =>
        (lazily_quiet right (expr_stays right)).stays.bind fun right' => Stays.made ?_).congr ?_ <;>
        simp only [Sites.ofExpr, add_zero]
      abel
  | conditional test yes no span =>
      unfold expr
      refine ((inPlace_stays (expr_stays test)).bind fun test' =>
        (lazily_quiet yes (expr_stays yes)).stays.bind fun yes' =>
          (lazily_quiet no (expr_stays no)).stays.bind fun no' => Stays.made ?_).congr ?_ <;>
        simp only [Sites.ofExpr, add_zero]
      abel
  | assign op target value span =>
      unfold expr
      refine ((pattern_stays target).bind fun target' =>
        (inPlace_stays (expr_stays value)).bind fun value' => Stays.made ?_).congr ?_ <;>
        simp only [Sites.ofExpr, add_zero]
      abel
  | sequence es span =>
      cases es with
      | nil => unfold expr; exact Stays.made (by simp only [Sites.ofExpr, Sites.ofSequence])
      | cons e more =>
          unfold expr
          refine ((inPlace_stays (expr_stays e)).bind fun e' =>
            (lazyValues_quiet more).stays.bind fun more' => Stays.made ?_).congr ?_ <;>
            simp only [Sites.ofExpr, Sites.ofSequence, add_zero]
          abel

theorem values_stays (es : List Expr) : Stays (values es) (Sites.ofExprs es) 0 Sites.ofExprs := by
  cases es with
  | nil => unfold values; exact Stays.made (by simp only [Sites.ofExprs])
  | cons e more =>
      unfold values
      refine ((inPlace_stays (expr_stays e)).bind fun e' => (values_stays more).bind fun more' =>
        Stays.made ?_).congr ?_ <;> simp only [Sites.ofExprs, add_zero]
      abel

theorem lazyValues_quiet (es : List Expr) : Quiet (lazyValues es) (Sites.ofLater es) Sites.ofLater := by
  cases es with
  | nil => unfold lazyValues; exact Quiet.pure (Kept.refl _)
  | cons e more =>
      unfold lazyValues
      refine (lazily_quiet e (expr_stays e)).bind fun e' he => (lazyValues_quiet more).bind fun more' hmore =>
        Quiet.pure ?_
      simp only [Sites.ofLater]
      exact he.add hmore

theorem items_stays (es : List Item) : Stays (items es) (Sites.ofItems es) 0 Sites.ofItems := by
  match es with
  | [] => unfold items; exact Stays.made (by simp only [Sites.ofItems])
  | .hole :: more =>
      unfold items
      refine ((items_stays more).bind fun more' => Stays.made ?_).congr ?_ <;>
        simp only [Sites.ofItems, add_zero]
  | .expr e :: more =>
      unfold items
      refine ((inPlace_stays (expr_stays e)).bind fun e' => (items_stays more).bind fun more' =>
        Stays.made ?_).congr ?_ <;> simp only [Sites.ofItems, add_zero]
      abel
  | .spread e :: more =>
      unfold items
      refine ((inPlace_stays (expr_stays e)).bind fun e' => (items_stays more).bind fun more' =>
        Stays.made ?_).congr ?_ <;> simp only [Sites.ofItems, add_zero]
      abel

theorem key_stays (k : Key) : Stays (key k) (Sites.ofKey k) 0 Sites.ofKey := by
  cases k with
  | computed e =>
      unfold key
      refine ((inPlace_stays (expr_stays e)).bind fun e' => Stays.made ?_).congr ?_ <;>
        simp only [Sites.ofKey, add_zero]
  | name id => unfold key; exact Stays.made (by simp only [Sites.ofKey])
  | literal lit => unfold key; exact Stays.made (by simp only [Sites.ofKey])

theorem properties_stays (ps : List Property) :
    Stays (properties ps) (Sites.ofProperties ps) 0 Sites.ofProperties := by
  match ps with
  | [] => unfold properties; exact Stays.made (by simp only [Sites.ofProperties])
  | .spread e :: more =>
      unfold properties
      refine ((inPlace_stays (expr_stays e)).bind fun e' => (properties_stays more).bind fun more' =>
        Stays.made ?_).congr ?_ <;> simp only [Sites.ofProperties, add_zero]
      abel
  | .init k value shorthand span :: more =>
      unfold properties
      refine ((key_stays k).bind fun k' => (inPlace_stays (expr_stays value)).bind fun value' =>
        (properties_stays more).bind fun more' => Stays.made ?_).congr ?_ <;>
        simp only [Sites.ofProperties, add_zero]
      abel

theorem arrowBody_quiet (span : Span) (body : ArrowBody) :
    Quiet (arrowBody span body) (Sites.ofArrowBody body) Sites.ofArrowBody := by
  cases body with
  | expr e =>
      unfold arrowBody
      simp only [Sites.ofArrowBody]
      exact exprBody_quiet _ span (expr_stays e)
  | block b =>
      unfold arrowBody
      exact (block_quiet b).bind fun b' hb => Quiet.pure (by simpa only [Sites.ofArrowBody] using hb)

theorem params_quiet (moved : Bool) (ps : List Pattern) :
    Quiet (params moved ps) (Sites.ofPatterns ps) fun r => Sites.ofPatterns r.1 + Sites.ofStmts r.2 := by
  cases ps with
  | nil => unfold params; exact Quiet.pure (Kept.refl _)
  | cons p more =>
      unfold params
      refine (param_quiet moved (pattern_stays p)).bind ?_
      rintro ⟨p', decls⟩ hp
      refine (params_quiet (moved || !decls.isEmpty) more).bind ?_
      rintro ⟨more', others⟩ hmore
      refine Quiet.pure ?_
      have hall := hp.add hmore
      simp only [Sites.ofPatterns, Sites.ofStmts_append]
      rwa [add_add_add_comm] at hall

theorem pattern_stays (p : Pattern) : Stays (pattern p) (Sites.ofPattern p) 0 Sites.ofPattern := by
  cases p with
  | ident id => unfold pattern; exact Stays.made (by simp only [Sites.ofPattern])
  | hole => unfold pattern; exact Stays.made (by simp only [Sites.ofPattern])
  | array elements span =>
      unfold pattern
      refine ((patterns_stays elements).bind fun elements' => Stays.made ?_).congr ?_ <;>
        simp only [Sites.ofPattern, add_zero]
  | object props span =>
      unfold pattern
      refine ((patternProps_stays props).bind fun props' => Stays.made ?_).congr ?_ <;>
        simp only [Sites.ofPattern, add_zero]
  | assign target default =>
      unfold pattern
      refine ((pattern_stays target).bind fun target' =>
        (lazily_quiet default (expr_stays default)).stays.bind fun default' => Stays.made ?_).congr ?_ <;>
        simp only [Sites.ofPattern, add_zero]
      abel
  | rest target =>
      unfold pattern
      refine ((pattern_stays target).bind fun target' => Stays.made ?_).congr ?_ <;>
        simp only [Sites.ofPattern, add_zero]
  | member e =>
      unfold pattern
      refine ((expr_stays e).bind fun e' => Stays.made ?_).congr ?_ <;>
        simp only [Sites.ofPattern, add_zero]

theorem patterns_stays (ps : List Pattern) : Stays (patterns ps) (Sites.ofPatterns ps) 0 Sites.ofPatterns := by
  cases ps with
  | nil => unfold patterns; exact Stays.made (by simp only [Sites.ofPatterns])
  | cons p more =>
      unfold patterns
      refine ((pattern_stays p).bind fun p' => (patterns_stays more).bind fun more' =>
        Stays.made ?_).congr ?_ <;> simp only [Sites.ofPatterns, add_zero]
      abel

theorem patternProps_stays (ps : List PatternProp) :
    Stays (patternProps ps) (Sites.ofPatternProps ps) 0 Sites.ofPatternProps := by
  match ps with
  | [] => unfold patternProps; exact Stays.made (by simp only [Sites.ofPatternProps])
  | .init k value shorthand :: more =>
      unfold patternProps
      refine ((key_stays k).bind fun k' => (pattern_stays value).bind fun value' =>
        (patternProps_stays more).bind fun more' => Stays.made ?_).congr ?_ <;>
        simp only [Sites.ofPatternProps, add_zero]
      abel
  | .rest target :: more =>
      unfold patternProps
      refine ((pattern_stays target).bind fun target' => (patternProps_stays more).bind fun more' =>
        Stays.made ?_).congr ?_ <;> simp only [Sites.ofPatternProps, add_zero]
      abel

theorem block_quiet (b : Block) : Quiet (block b) (Sites.ofBlock b) Sites.ofBlock := by
  obtain ⟨stmts, span⟩ := b
  unfold block
  exact (statements_quiet stmts).inScope.bind fun outs hstmts => Quiet.pure hstmts

theorem statements_quiet (ss : List Stmt) : Quiet (statements ss) (Sites.ofStmts ss) Sites.ofStmts := by
  cases ss with
  | nil => unfold statements; exact Quiet.pure (Kept.refl _)
  | cons stmt more =>
      unfold statements
      refine (statement_quiet stmt).bind fun outs hstmt => (statements_quiet more).bind fun outs' hmore =>
        Quiet.pure ?_
      rw [Sites.ofStmts, Sites.ofStmts_append]
      exact hstmt.add hmore

theorem statement_quiet (stmt : Stmt) : Quiet (statement stmt) (Sites.ofStmt stmt) Sites.ofStmts := by
  match stmt with
  | .declare (.mk kind ds dspan) span =>
      rw [statement_declare]
      refine (declaration_quiet kind span [] ds).mono fun outs hkept => ?_
      simpa only [Sites.ofStmt, Sites.ofDeclarators, zero_add] using hkept
  | .expr e span =>
      rw [statement_expr]
      refine placed_quiet (((inPlace_stays (expr_stays e)).bind fun e' => Stays.made ?_).congr ?_) <;>
        simp only [Sites.ofStmt, add_zero]
  | .return (some e) span =>
      rw [statement_return]
      refine placed_quiet (((inPlace_stays (expr_stays e)).bind fun e' => Stays.made ?_).congr ?_) <;>
        simp only [Sites.ofStmt, Sites.ofOption, add_zero]
  | .cond test yes none span =>
      rw [statement_cond]
      refine placed_quiet (((inPlace_stays (expr_stays test)).bind fun test' =>
        (branch_quiet yes (statement_quiet yes)).stays.bind fun outs => Stays.made ?_).congr ?_) <;>
        simp only [Sites.ofStmt, add_zero]
      abel
  | .cond test yes (some no) span =>
      rw [statement_cond_else]
      refine placed_quiet (((inPlace_stays (expr_stays test)).bind fun test' =>
        (branch_quiet yes (statement_quiet yes)).stays.bind fun outs =>
          (branch_quiet no (statement_quiet no)).stays.bind fun outs' => Stays.made ?_).congr ?_) <;>
        simp only [Sites.ofStmt, add_zero]
      abel
  | .while test body span =>
      rw [statement_while]
      refine placed_quiet (((lazily_quiet test (expr_stays test)).stays.bind fun test' =>
        (branch_quiet body (statement_quiet body)).stays.bind fun outs => Stays.made ?_).congr ?_) <;>
        simp only [Sites.ofStmt, add_zero]
      abel
  | .doWhile body test span =>
      rw [statement_doWhile]
      refine placed_quiet (((branch_quiet body (statement_quiet body)).stays.bind fun outs =>
        (lazily_quiet test (expr_stays test)).stays.bind fun test' => Stays.made ?_).congr ?_) <;>
        simp only [Sites.ofStmt, add_zero]
      abel
  | .for init test update body span =>
      rw [statement_for]
      refine placed_quiet (Stays.inScope (((forInit_stays init).bind fun init' =>
        (clause_quiet test).stays.bind fun test' => (clause_quiet update).stays.bind fun update' =>
          (branch_quiet body (statement_quiet body)).stays.bind fun outs => Stays.made ?_).congr ?_)) <;>
        simp only [Sites.ofStmt, add_zero]
      abel
  | .block b =>
      rw [statement_block]
      refine placed_quiet (((block_quiet b).stays.bind fun b' => Stays.made ?_).congr ?_) <;>
        simp only [Sites.ofStmt, add_zero]
  | .return none span => exact Quiet.pure (Kept.refl _)
  | .break span => exact Quiet.pure (Kept.refl _)
  | .continue span => exact Quiet.pure (Kept.refl _)
  | .debugger span => exact Quiet.pure (Kept.refl _)
  | .empty span => exact Quiet.pure (Kept.refl _)
  | .function fn => exact Quiet.pure (by rw [Sites.ofStmts, Sites.ofStmts, add_zero]; exact Kept.refl _)

theorem clause_quiet (e : Option Expr) :
    Quiet (optionally (fun e => lazily (expr e)) e) (Sites.ofClause e) Sites.ofClause := by
  cases e with
  | none => exact Quiet.pure (Kept.refl _)
  | some e => exact (lazily_quiet e (expr_stays e)).bind fun e' he => Quiet.pure he

theorem initial_stays (e : Option Expr) :
    Stays (optionally (fun e => inPlace (expr e)) e) (Sites.ofOption e) 0 Sites.ofOption := by
  cases e with
  | none => exact Stays.made (by simp only [Sites.ofOption])
  | some e =>
      refine ((inPlace_stays (expr_stays e)).bind fun e' => Stays.made ?_).congr ?_ <;>
        simp only [Sites.ofOption, add_zero]

theorem forInit_stays (init : ForInit) : Stays (forInit init) (Sites.ofForInit init) 0 Sites.ofForInit := by
  match init with
  | .absent => unfold forInit; exact Stays.made (by simp only [Sites.ofForInit])
  | .expr e =>
      unfold forInit
      refine ((inPlace_stays (expr_stays e)).bind fun e' => Stays.made ?_).congr ?_ <;>
        simp only [Sites.ofForInit, add_zero]
  | .declare (.mk kind [] dspan) =>
      unfold forInit
      exact Stays.made (by simp only [Sites.ofForInit, Sites.ofHeader])
  | .declare (.mk kind (.mk target init dspan :: more) span) =>
      rw [forInit_declare]
      have hsites : Sites.ofForInit (.declare (.mk kind (.mk target init dspan :: more) span)) =
          Sites.ofPattern target + Sites.ofOption init + (Sites.ofLaterHeader more + 0) := by
        simp only [Sites.ofForInit, Sites.ofHeader]
        abel
      refine ((declares_stays dspan (pattern_stays target) (initial_stays init)).bind ?_).congr hsites
      rintro ⟨target', init', dspan'⟩
      refine (lazyDeclarators_stays more).bind fun more' => Stays.made ?_
      simp only [Sites.ofForInit, Sites.ofHeader, ofDeclarator]
      abel

theorem lazyDeclarators_stays (ds : List Declarator) :
    Stays (lazyDeclarators ds) (Sites.ofLaterHeader ds) 0 Sites.ofLaterHeader := by
  match ds with
  | [] => unfold lazyDeclarators; exact Stays.made (by simp only [Sites.ofLaterHeader])
  | .mk target init span :: more =>
      rw [lazyDeclarators_cons]
      have hsites : Sites.ofLaterHeader (.mk target init span :: more) =
          Sites.ofPattern target + Sites.ofClause init + (Sites.ofLaterHeader more + 0) := by
        simp only [Sites.ofLaterHeader]
        abel
      refine ((declares_stays span (pattern_stays target) (clause_quiet init).stays).bind ?_).congr hsites
      rintro ⟨target', init', span'⟩
      refine (lazyDeclarators_stays more).bind fun more' => Stays.made ?_
      simp only [Sites.ofLaterHeader, ofDeclarator]
      abel

theorem declaration_quiet (kind : DeclKind) (span : Span) (waiting ds : List Declarator) :
    Quiet (declaration kind span waiting ds) (Sites.ofDeclarators waiting + Sites.ofDeclarators ds)
      Sites.ofStmts := by
  match ds with
  | [] =>
      unfold declaration
      refine Quiet.pure ?_
      cases waiting with
      | nil => exact Kept.refl _
      | cons d more =>
          rw [if_neg (by simp), Sites.ofStmts, Sites.ofStmts, ofStmt_declareStmt, Sites.ofDeclarators]
          exact Kept.refl _
  | .mk target init dspan :: more =>
      rw [declaration_cons]
      refine (declares_stays dspan (pattern_stays target) (initial_stays init)).collecting.bind ?_
      rintro ⟨⟨target', init', dspan'⟩, decls⟩ hd
      -- what waits and what is left to visit stay as they are when the declarator is visited
      have hall : Kept (Sites.ofDeclarators waiting + Sites.ofDeclarators (.mk target init dspan :: more))
          (Sites.ofStmts decls + (Sites.ofDeclarators waiting +
            (Sites.ofDeclarators [.mk target' init' dspan'] + Sites.ofDeclarators more))) := by
        have hframed := (hd.add (Kept.refl (Sites.ofDeclarators more))).add
          (Kept.refl (Sites.ofDeclarators waiting))
        convert hframed using 1 <;> simp only [Sites.ofDeclarators, ofDeclarator] <;> abel
      refine Quiet.ite (fun _ => ?_) fun _ => ?_
      · refine (declaration_quiet kind span [_] more).bind fun outs hmore => Quiet.pure (hall.trans ?_)
        rw [List.cons_append, Sites.ofStmts, Sites.ofStmts_append, ofStmt_declareStmt, add_left_comm]
        exact (Kept.refl _).add ((Kept.refl _).add hmore)
      · refine (declaration_quiet kind span (waiting ++ [_]) more).bind fun outs hmore =>
          Quiet.pure (hall.trans ?_)
        rw [Sites.ofDeclarators_append, add_assoc] at hmore
        rw [Sites.ofStmts_append]
        exact (Kept.refl _).add hmore

end

/-! ## Positions that may not be reached -/

/-- A function is visited as a function, and leaves no declarations. -/
theorem arrow_keeps (ps : List Pattern) (body : ArrowBody) (isAsync : Bool) (span : Span) (out : Outside)
    (s : State) :
    Ensures (expr (.arrow ps body isAsync span)) out s fun r s' => s'.hoisted = s.hoisted ∧
      Kept (Sites.ofExpr (.arrow ps body isAsync span)) (Sites.ofExpr r.1) ∧
        ∃ ps' body' isAsync', r = (.arrow ps' body' isAsync' span, false) := by
  unfold expr
  have hparts := arrow_quiet isAsync span (params_quiet false ps) (arrowBody_quiet span body)
  refine Ensures.bind (hparts.inScope.framed isAsync out s) ?_
  rintro ⟨⟨ps', body'⟩, awaits⟩ s' ⟨hhoisted, hkept⟩
  exact Ensures.pure ⟨hhoisted, hkept, ps', body', awaits, rfl⟩

/-- A default that moves into the body of its function becomes the branch of a conditional, which is taken if
the parameter is undefined. -/
theorem moveParam_default (target : Pattern) (default : Expr) (out : Outside) (s : State) :
    Ensures (moveParam (.assign target default)) out s fun r s' => s'.hoisted = s.hoisted ∧
      let span := (Pattern.assign target default).span
      let value := Expr.identifier (temporaryName s.temporaries) span
      let test := Expr.binary .strictEq value (.identifier "undefined" span) span
      r = (.ident ⟨temporaryName s.temporaries, span⟩,
        declareStmt .let [.mk target (some (.conditional test default value span)) span] span) :=
  ⟨rfl, rfl⟩

/-- Calls never leave their zones. Visiting an expression, a pattern or a statement keeps every call in its
zones; it ends up in the new tree or, with all zones around it, in a declaration in front. Visiting one of
the positions that may not be reached leaves the waiting declarations as they were, so that the calls of
the position are in what takes its place:

* an expression that is visited lazily (a branch, a right operand, a clause of a loop, a later initial value
  or operand, a default), which stands in the place of the old one,
* a function, whose defaults stay in their position or move into the branch of a conditional in the body,
* the body of a branch or loop. -/
theorem lazy_positions_keep_calls (out : Outside) (s : State) :
    (∀ e, Ensures (expr e) out s fun r s' => ∃ new, s'.hoisted = s.hoisted ++ new ∧
      Kept (Sites.ofExpr e) (Sites.ofStmts new + Sites.ofExpr r.1)) ∧
    (∀ p, Ensures (pattern p) out s fun p' s' => ∃ new, s'.hoisted = s.hoisted ++ new ∧
      Kept (Sites.ofPattern p) (Sites.ofStmts new + Sites.ofPattern p')) ∧
    (∀ stmt, Ensures (statement stmt) out s fun outs s' => s'.hoisted = s.hoisted ∧
      Kept (Sites.ofStmt stmt) (Sites.ofStmts outs)) ∧
    (∀ e, Ensures (lazily (expr e)) out s fun e' s' => s'.hoisted = s.hoisted ∧
      Kept (Sites.ofExpr e) (Sites.ofExpr e') ∧ e'.span = e.span) ∧
    (∀ ps body isAsync span, Ensures (expr (.arrow ps body isAsync span)) out s fun r s' =>
      s'.hoisted = s.hoisted ∧ Kept (Sites.ofExpr (.arrow ps body isAsync span)) (Sites.ofExpr r.1) ∧
        ∃ ps' body' isAsync', r = (.arrow ps' body' isAsync' span, false)) ∧
    (∀ target default, Ensures (moveParam (.assign target default)) out s fun r s' =>
      s'.hoisted = s.hoisted ∧
        let span := (Pattern.assign target default).span
        let value := Expr.identifier (temporaryName s.temporaries) span
        let test := Expr.binary .strictEq value (.identifier "undefined" span) span
        r = (.ident ⟨temporaryName s.temporaries, span⟩,
          declareStmt .let [.mk target (some (.conditional test default value span)) span] span)) ∧
    (∀ body, Ensures (inScope (statement body)) out s fun outs s' => s'.hoisted = s.hoisted ∧
      Kept (Sites.ofStmt body) (Sites.ofStmt (bodyOf body outs)) ∧ (bodyOf body outs).span = body.span) := by
  refine ⟨fun e => ?_, fun p => ?_, fun stmt => statement_quiet stmt out s, fun e => ?_,
    fun ps body isAsync span => arrow_keeps ps body isAsync span out s,
    fun target default => moveParam_default target default out s, fun body => ?_⟩
  · refine (expr_stays e out s).mono ?_
    rintro r s' ⟨new, hnew, hkept⟩
    exact ⟨new, hnew, by rwa [zero_add] at hkept⟩
  · refine (pattern_stays p out s).mono ?_
    rintro p' s' ⟨new, hnew, hkept⟩
    exact ⟨new, hnew, by rwa [zero_add] at hkept⟩
  · have hkept := lazily_keeps (expr_stays e) out s
    exact ⟨hkept.1, hkept.2, lazily_span e out s⟩
  · have hkept := (statement_quiet body).inScope out s
    refine ⟨hkept.1, ?_, bodyOf_span body out s⟩
    rw [ofStmt_bodyOf]
    exact hkept.2

/-- A settled body has the calls of the body, in their zones. In front of them stand declarations of the
prelude. -/
theorem settle_keeps_calls (body : Expr) (capabilities : Capabilities) (args : List String) :
    ∃ helpers stmts, settle body capabilities args = .ok (.mk (helpers ++ stmts) body.span) ∧
      (∀ d ∈ helpers, ∃ name ∈ Prelude.names, Prelude.declaration name = .ok d) ∧
        Kept (Sites.ofExpr body) (Sites.ofStmts stmts) := by
  obtain ⟨helpers, hhelpers, stmts, hsettle, hstmts⟩ := Awaited.settle_eq body capabilities args
  refine ⟨helpers, stmts, hsettle, hhelpers, ?_⟩
  refine hstmts (fun stmts => Kept (Sites.ofExpr body) (Sites.ofStmts stmts)) ?_
  exact ((statement_quiet (returning body)).inScope _ _).mono fun outs s' hkept => hkept.2

end FieldScript.Settle
