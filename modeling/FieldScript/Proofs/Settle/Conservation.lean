import FieldScript.Proofs.Settle.Conserves
import FieldScript.Proofs.Settle.KeptCalls

/-!
# Nothing is lost and nothing is repeated

The walk over a body is followed case by case: every kind of tree is conserved, apart from insertions.
-/

namespace FieldScript.Settle

open Walk (Ensures)
open Contents (Under source source_add)

/-! ## Leaves that stay as they are -/

theorem items_length (args : List Item) (out : Outside) (s : State) :
    Ensures (items args) out s fun args' _ => args'.length = args.length := by
  induction args generalizing s with
  | nil => unfold items; exact rfl
  | cons arg more ih =>
      cases arg with
      | hole =>
          unfold items
          exact Ensures.bind (ih s) fun more' s' h => congrArg (· + 1) h
      | expr e =>
          unfold items
          exact Ensures.skip fun e' s' => Ensures.bind (ih s') fun more' s'' h => congrArg (· + 1) h
      | spread e =>
          unfold items
          exact Ensures.skip fun e' s' => Ensures.bind (ih s') fun more' s'' h => congrArg (· + 1) h

/-- A leaf says no more than what is known of it. -/
theorem under_source {c : Census} {ms : Mentions} (h : ms ⊆ c.bind Leaf.mentions) : Under (c, ms) (source c) := ⟨rfl, h⟩

theorem under_name (v : Naming) (name : String) : Under ({v.leaf name}, v.mention name) (source {v.leaf name}) :=
  under_source (by rw [Multiset.singleton_bind]; exact v.known name)

/-- A declarator joins those that wait if it needs no declarations or if none wait. -/
theorem joined_under (v : Naming) (waiting : List Declarator) (d : Declarator) (decls : List Stmt)
    (h : ¬(!decls.isEmpty && !waiting.isEmpty) = true) :
    Under (Contents.behind decls (Contents.ofDeclarators v (waiting ++ [d])))
      (Contents.behind decls (Contents.ofDeclarators v [d]) + Contents.ofDeclarators v waiting) := by
  cases waiting with
  | nil => exact .of_eq (add_zero _).symm
  | cons first others =>
      cases decls with
      | nil =>
          rw [Contents.behind_nil, Contents.behind_nil, add_comm]
          exact Contents.ofDeclarators_append_under v (first :: others) [d]
      | cons stmt more => simp at h

/-- Otherwise the statement is split. -/
theorem split_under (kind : DeclKind) (span : Span) (waiting : List Declarator) (decls outs : List Stmt) :
    Under (Contents.ofStmts (declareStmt kind waiting span :: decls ++ outs))
      (Contents.behind decls (Contents.ofStmts outs) + Contents.ofDeclarators kind.naming waiting) := by
  rw [Contents.behind_ofStmts, ← Contents.ofStmt_declareStmt kind waiting span, ← Contents.ofStmts_singleton, add_comm]
  exact Contents.ofStmts_append_under [declareStmt kind waiting span] (decls ++ outs)

/-! ## The walk -/

mutual

theorem expr_conserves (e : Expr) :
    Conserves false (expr e) (source (Census.ofExpr false e)) 0 fun r => Contents.ofExpr r.1 := by
  cases e with
  | call callee args optional span =>
      unfold expr
      have hsource : source (Census.ofExpr false (.call callee args optional span)) =
          source (Census.ofExpr false callee) + (source (Census.ofItems false args) +
            ({Leaf.call callee.name? span args.length}, 0)) := by
        simp only [Census.ofExpr, Census.ofCall, Bool.false_and, Bool.false_eq_true, if_false, add_zero, source_add]
        rw [add_comm, add_assoc]
        rfl
      refine .skip (callsAsync_idle callee) fun capability => .congr ?_ hsource
      refine (inPlace_conserves (expr_conserves callee)).bind_of (inPlace_name callee) fun callee' hname =>
        (items_conserves args).bind_of (items_length args) fun args' hlength => ?_
      rw [add_zero, ← hname, ← hlength]
      exact .ite (fun hmaps => .pure [.joined span] rfl (Accounted.joined optional hmaps))
        fun hmaps => .pure [] rfl (Accounted.call optional (Bool.eq_false_of_not_eq_true hmaps))
  | literal lit span => unfold expr; exact .kept (under_source (Multiset.zero_subset _))
  | this span => unfold expr; exact .kept (under_source (Multiset.zero_subset _))
  | function fn => unfold expr; exact .kept (under_source (Multiset.Subset.refl _))
  | identifier name span =>
      unfold expr
      exact .skip (noteName_idle name) fun _ => .kept (under_name .target name)
  | template parts es span =>
      unfold expr
      have hsource : source (Census.ofExpr false (.template parts es span)) =
          source (Census.ofExprs false es) + source (Multiset.ofList (parts.map .text)) := by
        rw [Census.ofExpr, source_add, add_comm]
      refine ((values_conserves es).bind fun es' => .finish ?_).congr hsource
      refine ⟨?_, ?_⟩
      · show Multiset.ofList _ + Census.ofExprs true es' = Census.ofExprs true es' + 0 + Multiset.ofList _
        abel
      · show Mentions.ofExprs es' ⊆ Mentions.ofExprs es' + 0 + _
        rw [add_zero]
        exact Multiset.subset_of_le (Multiset.le_add_right _ _)
  | array es span =>
      unfold expr
      exact (items_conserves es).node (fun _ => rfl) (by rw [Census.ofExpr])
  | object ps span =>
      unfold expr
      exact (properties_conserves ps).node (fun _ => rfl) (by rw [Census.ofExpr])
  | member object k optional span =>
      unfold expr
      refine (asObject_conserves (expr_conserves object)).node₂ (key_conserves k) (fun _ _ => rfl) ?_
      rw [Census.ofExpr, source_add]
  | arrow ps body isAsync span =>
      unfold expr
      have hparts : Conserves true (do
          let (ps, moved) ← params false ps
          let body ← arrowBody span body
          return (ps, withMoved moved body span)) (source (Census.ofExpr false (.arrow ps body isAsync span))) 0
            fun r => Contents.ofExpr (.arrow r.1 r.2 isAsync span) := by
        refine ((params_conserves false ps).bind fun r => (arrowBody_conserves span body).bind fun body' =>
          .made ?_).congr ?_
        · exact (Contents.ofExpr_arrow_under r.1 r.2 body' isAsync span).trans (.of_eq (by abel))
        · rw [Census.ofExpr, source_add, add_zero]; rfl
      exact (hparts.inScope.framed isAsync).weaken.andThen fun r => .made (.refl _)
  | await e span =>
      unfold expr
      refine ((inPlace_conserves (expr_conserves e)).bind fun e' => .skip markAwait_idle fun _ =>
        .made (.of_eq ?_)).congr ?_
      · exact (add_zero _).symm
      · rw [Census.ofExpr, add_zero]
  | unary op e span =>
      unfold expr
      exact (inPlace_conserves (expr_conserves e)).node (fun _ => rfl) (by rw [Census.ofExpr])
  | update op before target span =>
      unfold expr
      exact (pattern_conserves .target target).node (fun _ => rfl) (by rw [Census.ofExpr]; rfl)
  | binary op left right span =>
      unfold expr
      refine (inPlace_conserves (expr_conserves left)).node₂
        (inPlace_conserves (expr_conserves right)) (fun _ _ => rfl) ?_
      rw [Census.ofExpr, source_add]
  | logical op left right span =>
      unfold expr
      refine (inPlace_conserves (expr_conserves left)).node₂
        (lazily_conserves (expr_conserves right)).weaken (fun _ _ => rfl) ?_
      rw [Census.ofExpr, source_add]
  | conditional test yes no span =>
      unfold expr
      refine (inPlace_conserves (expr_conserves test)).node₃ (lazily_conserves (expr_conserves yes)).weaken
        (lazily_conserves (expr_conserves no)).weaken (fun _ _ _ => rfl) ?_
      rw [Census.ofExpr, source_add, source_add]
  | assign op target value span =>
      unfold expr
      refine (pattern_conserves .target target).node₂ (inPlace_conserves (expr_conserves value)) (fun _ _ => rfl) ?_
      rw [Census.ofExpr, source_add]
      rfl
  | sequence es span =>
      cases es with
      | nil => unfold expr; exact .kept (under_source (Multiset.zero_subset _))
      | cons e more =>
          unfold expr
          refine (inPlace_conserves (expr_conserves e)).node₂ (lazyValues_conserves more).weaken (fun _ _ => rfl) ?_
          rw [Census.ofExpr, Census.ofExprs, source_add]

theorem values_conserves (es : List Expr) :
    Conserves false (values es) (source (Census.ofExprs false es)) 0 Contents.ofExprs := by
  cases es with
  | nil => unfold values; exact .kept (.refl _)
  | cons e more =>
      unfold values
      refine (inPlace_conserves (expr_conserves e)).node₂ (values_conserves more) (fun _ _ => rfl) ?_
      rw [Census.ofExprs, source_add]

theorem lazyValues_conserves (es : List Expr) :
    Conserves true (lazyValues es) (source (Census.ofExprs false es)) 0 Contents.ofExprs := by
  cases es with
  | nil => unfold lazyValues; exact .kept (.refl _)
  | cons e more =>
      unfold lazyValues
      refine (lazily_conserves (expr_conserves e)).node₂ (lazyValues_conserves more) (fun _ _ => rfl) ?_
      rw [Census.ofExprs, source_add]

theorem items_conserves (es : List Item) :
    Conserves false (items es) (source (Census.ofItems false es)) 0 Contents.ofItems := by
  match es with
  | [] => unfold items; exact .kept (.refl _)
  | .hole :: more =>
      unfold items
      exact (items_conserves more).node (fun _ => rfl) (by rw [Census.ofItems])
  | .expr e :: more =>
      unfold items
      refine (inPlace_conserves (expr_conserves e)).node₂ (items_conserves more) (fun _ _ => rfl) ?_
      rw [Census.ofItems, source_add]
  | .spread e :: more =>
      unfold items
      refine (inPlace_conserves (expr_conserves e)).node₂ (items_conserves more) (fun _ _ => rfl) ?_
      rw [Census.ofItems, source_add]

theorem key_conserves (k : Key) : Conserves false (key k) (source (Census.ofKey false k)) 0 Contents.ofKey := by
  cases k with
  | computed e =>
      unfold key
      exact (inPlace_conserves (expr_conserves e)).node (fun _ => rfl) (by rw [Census.ofKey])
  | name id => unfold key; exact .kept (under_source (Multiset.zero_subset _))
  | literal lit => unfold key; exact .kept (under_source (Multiset.zero_subset _))

theorem properties_conserves (ps : List Property) :
    Conserves false (properties ps) (source (Census.ofProperties false ps)) 0 Contents.ofProperties := by
  match ps with
  | [] => unfold properties; exact .kept (.refl _)
  | .spread e :: more =>
      unfold properties
      refine (inPlace_conserves (expr_conserves e)).node₂ (properties_conserves more) (fun _ _ => rfl) ?_
      rw [Census.ofProperties, source_add]
  | .init k value shorthand span :: more =>
      unfold properties
      refine (key_conserves k).node₃ (inPlace_conserves (expr_conserves value))
        (properties_conserves more) (fun _ _ _ => rfl) ?_
      rw [Census.ofProperties, source_add, source_add]

theorem arrowBody_conserves (span : Span) (body : ArrowBody) :
    Conserves true (arrowBody span body) (source (Census.ofArrowBody false body)) 0 Contents.ofArrowBody := by
  cases body with
  | expr e => unfold arrowBody; exact exprBody_conserves e.isMemberOrCall span (expr_conserves e)
  | block b =>
      unfold arrowBody
      exact (block_conserves b).andThen fun b' => .made (.refl _)

theorem params_conserves (moved : Bool) (ps : List Pattern) :
    Conserves true (params moved ps) (source (Census.ofPatterns false Naming.parameter.leaf ps)) 0
      Contents.ofParams := by
  cases ps with
  | nil => unfold params; exact .kept (.refl _)
  | cons p more =>
      unfold params
      refine ((param_conserves moved (pattern_conserves .variable p)).bind fun r =>
        (params_conserves (moved || !r.2.isEmpty) more).bind fun r' => .made ?_).congr ?_
      · exact (Contents.ofParams_cons r.1 r'.1 r.2 r'.2).trans (.of_eq (by abel))
      · rw [Census.ofPatterns, source_add, add_zero]; rfl

theorem pattern_conserves (v : Naming) (p : Pattern) :
    Conserves false (pattern p) (source (Census.ofPattern false v.leaf p)) 0 (Contents.ofPattern v) := by
  cases p with
  | ident id => unfold pattern; exact .kept (under_name v id.name)
  | hole => unfold pattern; exact .kept (under_source (Multiset.zero_subset _))
  | array elements span =>
      unfold pattern
      exact (patterns_conserves v elements).node (fun _ => rfl) (by rw [Census.ofPattern])
  | object props span =>
      unfold pattern
      exact (patternProps_conserves v props).node (fun _ => rfl) (by rw [Census.ofPattern])
  | assign target default =>
      unfold pattern
      refine (pattern_conserves v target).node₂ (lazily_conserves (expr_conserves default)).weaken (fun _ _ => rfl) ?_
      rw [Census.ofPattern, source_add]
  | rest target =>
      unfold pattern
      exact (pattern_conserves v target).node (fun _ => rfl) (by rw [Census.ofPattern])
  | member e =>
      unfold pattern
      exact (expr_conserves e).node (fun _ => rfl) (by rw [Census.ofPattern])

theorem patterns_conserves (v : Naming) (ps : List Pattern) :
    Conserves false (patterns ps) (source (Census.ofPatterns false v.leaf ps)) 0 (Contents.ofPatterns v) := by
  cases ps with
  | nil => unfold patterns; exact .kept (.refl _)
  | cons p more =>
      unfold patterns
      refine (pattern_conserves v p).node₂ (patterns_conserves v more) (fun _ _ => rfl) ?_
      rw [Census.ofPatterns, source_add]

theorem patternProps_conserves (v : Naming) (ps : List PatternProp) :
    Conserves false (patternProps ps) (source (Census.ofPatternProps false v.leaf ps)) 0
      (Contents.ofPatternProps v) := by
  match ps with
  | [] => unfold patternProps; exact .kept (.refl _)
  | .init k target shorthand :: more =>
      unfold patternProps
      refine (key_conserves k).node₃ (pattern_conserves v target) (patternProps_conserves v more) (fun _ _ _ => rfl) ?_
      rw [Census.ofPatternProps, source_add, source_add]
  | .rest target :: more =>
      unfold patternProps
      refine (pattern_conserves v target).node₂ (patternProps_conserves v more) (fun _ _ => rfl) ?_
      rw [Census.ofPatternProps, source_add]

theorem block_conserves (b : Block) :
    Conserves true (block b) (source (Census.ofBlock false b)) 0 Contents.ofBlock := by
  obtain ⟨stmts, span⟩ := b
  unfold block
  exact (statements_conserves stmts).inScope.andThen fun outs => .made (.refl _)

theorem statements_conserves (ss : List Stmt) :
    Conserves true (statements ss) (source (Census.ofStmts false ss)) 0 Contents.ofStmts := by
  cases ss with
  | nil => unfold statements; exact .kept (.refl _)
  | cons stmt more =>
      unfold statements
      refine ((statement_conserves stmt).bind fun outs => (statements_conserves more).bind fun outs' =>
        .made ?_).congr ?_
      · exact (Contents.ofStmts_append_under outs outs').trans (.of_eq (by abel))
      · rw [Census.ofStmts, source_add, add_zero]

theorem statement_conserves (stmt : Stmt) :
    Conserves true (statement stmt) (source (Census.ofStmt false stmt)) 0 Contents.ofStmts := by
  match stmt with
  | .declare (.mk kind ds dspan) span =>
      rw [statement_declare]
      exact declaration_conserves kind span [] ds
  | .expr e span =>
      rw [statement_expr]
      exact placed_conserves ((inPlace_conserves (expr_conserves e)).andThen fun e' => .made (.refl _))
  | .return (some e) span =>
      rw [statement_return]
      exact placed_conserves ((inPlace_conserves (expr_conserves e)).andThen fun e' => .made (.refl _))
  | .cond test yes none span =>
      rw [statement_cond]
      refine placed_conserves (((inPlace_conserves (expr_conserves test)).bind fun test' =>
        (branch_conserves yes (statement_conserves yes)).weaken.bind fun outs => .made (.of_eq ?_)).congr ?_)
      · show Contents.ofExpr test' + (Contents.ofStmt (bodyOf yes outs) + 0) = _
        abel
      · rw [Census.ofStmt, source_add, source_add, Contents.source_zero]
  | .cond test yes (some no) span =>
      rw [statement_cond_else]
      refine placed_conserves ((inPlace_conserves (expr_conserves test)).node₃
        (branch_conserves yes (statement_conserves yes)).weaken (branch_conserves no (statement_conserves no)).weaken
        (fun _ _ _ => rfl) ?_)
      rw [Census.ofStmt, source_add, source_add]
  | .while test body span =>
      rw [statement_while]
      refine placed_conserves ((lazily_conserves (expr_conserves test)).weaken.node₂
        (branch_conserves body (statement_conserves body)).weaken (fun _ _ => rfl) ?_)
      rw [Census.ofStmt, source_add]
  | .doWhile body test span =>
      rw [statement_doWhile]
      refine placed_conserves ((branch_conserves body (statement_conserves body)).weaken.node₂
        (lazily_conserves (expr_conserves test)).weaken (fun _ _ => rfl) ?_)
      rw [Census.ofStmt, source_add]
  | .for init test update body span =>
      rw [statement_for]
      refine placed_conserves (Conserves.inScope (((forInit_conserves init).bind fun init' =>
        (clause_conserves test).bind fun test' => (clause_conserves update).bind fun update' =>
          (branch_conserves body (statement_conserves body)).weaken.bind fun outs => .made ?_).congr ?_))
      · refine (Contents.ofStmt_for_under init' test' update' (bodyOf body outs) span).trans (.of_eq ?_)
        abel
      · rw [Census.ofStmt, source_add, source_add, source_add, add_zero]
  | .block b =>
      rw [statement_block]
      exact placed_conserves ((block_conserves b).weaken.andThen fun b' => .made (.refl _))
  | .return none span => exact .kept (.refl _)
  | .break span => exact .kept (.refl _)
  | .continue span => exact .kept (.refl _)
  | .debugger span => exact .kept (.refl _)
  | .empty span => exact .kept (.refl _)
  | .function fn => exact .kept (.of_eq (Contents.ofStmts_singleton _))

theorem clause_conserves (e : Option Expr) :
    Conserves false (optionally (fun e => lazily (expr e)) e) (source (Census.ofOption false e)) 0
      Contents.ofOption := by
  cases e with
  | none => exact .kept (.refl _)
  | some e => exact (lazily_conserves (expr_conserves e)).weaken.andThen fun e' => .made (.refl _)

theorem initial_conserves (e : Option Expr) :
    Conserves false (optionally (fun e => inPlace (expr e)) e) (source (Census.ofOption false e)) 0
      Contents.ofOption := by
  cases e with
  | none => exact .kept (.refl _)
  | some e => exact (inPlace_conserves (expr_conserves e)).andThen fun e' => .made (.refl _)

theorem forInit_conserves (init : ForInit) :
    Conserves false (forInit init) (source (Census.ofForInit false init)) 0 Contents.ofForInit := by
  match init with
  | .absent => unfold forInit; exact .kept (.refl _)
  | .expr e =>
      unfold forInit
      refine (inPlace_conserves (expr_conserves e)).andThen fun e' => .made (.of_eq ?_)
      exact Prod.ext rfl (add_zero _)
  | .declare (.mk kind [] dspan) => unfold forInit; exact .kept (.refl _)
  | .declare (.mk kind (.mk target init dspan :: more) span) =>
      rw [forInit_declare]
      refine ((declares_conserves kind.naming dspan (pattern_conserves kind.naming target)
        (initial_conserves init)).bind fun d => (lazyDeclarators_conserves kind.naming more).bind fun more' =>
          .made ?_).congr ?_
      · refine (Contents.ofForInit_declare_under kind (d :: more') span).trans ?_
        refine (Contents.ofDeclarators_append_under kind.naming [d] more').trans (.of_eq ?_)
        abel
      · rw [Census.ofForInit, Census.ofDeclarators, source_add, source_add, add_zero, add_assoc]
        rfl

theorem lazyDeclarators_conserves (v : Naming) (ds : List Declarator) :
    Conserves false (lazyDeclarators ds) (source (Census.ofDeclarators false v.leaf ds)) 0
      (Contents.ofDeclarators v) := by
  match ds with
  | [] => unfold lazyDeclarators; exact .kept (.refl _)
  | .mk target init span :: more =>
      rw [lazyDeclarators_cons]
      refine ((declares_conserves v span (pattern_conserves v target) (clause_conserves init)).bind fun d =>
        (lazyDeclarators_conserves v more).bind fun more' => .made ?_).congr ?_
      · refine (Contents.ofDeclarators_append_under v [d] more').trans (.of_eq ?_)
        abel
      · rw [Census.ofDeclarators, source_add, source_add, add_zero, add_assoc]

/-- Declarators that have been visited wait behind the declarations that later ones need, if the statement is split
there. -/
theorem declaration_conserves (kind : DeclKind) (span : Span) (waiting ds : List Declarator) :
    Conserves true (declaration kind span waiting ds) (source (Census.ofDeclarators false kind.naming.leaf ds))
      (Contents.ofDeclarators kind.naming waiting) Contents.ofStmts := by
  match ds with
  | [] =>
      unfold declaration
      cases waiting with
      | nil => exact .kept (.refl _)
      | cons d more => exact .made (.of_eq (Contents.ofStmts_singleton _))
  | .mk target init dspan :: more =>
      rw [declaration_cons]
      have hsource : source (Census.ofDeclarators false kind.naming.leaf (.mk target init dspan :: more)) =
          source (Census.ofPattern false kind.naming.leaf target) + source (Census.ofOption false init) +
            source (Census.ofDeclarators false kind.naming.leaf more) := by
        rw [Census.ofDeclarators, source_add, source_add, add_assoc]
      refine ((declares_conserves kind.naming dspan (pattern_conserves kind.naming target)
        (initial_conserves init)).collecting.bind ?_).congr hsource
      rintro ⟨d, decls⟩
      refine .ite (fun _ => ?_) fun hjoined => ?_
      · refine (Conserves.seq (P := fun _ => True) ((declaration_conserves kind span [d] more).behind decls)
          (fun _ _ => trivial) fun outs _ => .made ?_).congr (add_zero _).symm
        exact split_under kind span waiting decls outs
      · have hmore := ((declaration_conserves kind span (waiting ++ [d]) more).behind decls).using_under
          (joined_under kind.naming waiting d decls hjoined)
        exact hmore.andThen fun outs => .made (.of_eq (Contents.behind_ofStmts decls outs).symm)

end

/-! ## Settled bodies -/

/-- A settled body is accounted for by the body and insertions, whose temporaries are numbered in order. In front stand
declarations of the prelude. -/
theorem settle_accounted (body : Expr) (capabilities : Capabilities) (args : List String) :
    ∃ helpers stmts made count, settle body capabilities args = .ok (.mk (helpers ++ stmts) body.span) ∧
      (∀ d ∈ helpers, ∃ name ∈ Prelude.names, Prelude.declaration name = .ok d) ∧
      Insertion.temporaries made = List.range count ∧
      Accounted made (source (Census.ofExpr false body)) (Contents.ofStmts stmts) := by
  obtain ⟨helpers, hhelpers, stmts, hsettle, hstmts⟩ := Awaited.settle_eq body capabilities args
  obtain ⟨made, count, htemporaries, haccounted⟩ := hstmts (fun stmts => ∃ made count,
    Insertion.temporaries made = List.range count ∧
      Accounted made (source (Census.ofExpr false body)) (Contents.ofStmts stmts)) <| by
    refine ((statement_conserves (returning body)).inScope _ _).mono ?_
    rintro outs s' ⟨new, made, -, hnone, hnumbered, haccounted⟩
    obtain rfl := hnone rfl
    refine ⟨made, s'.temporaries, ?_, ?_⟩
    · rw [hnumbered.temporaries, List.range_eq_range']
      rfl
    · rwa [Contents.behind_nil, zero_add] at haccounted
  exact ⟨helpers, stmts, made, count, hsettle, hhelpers, htemporaries, haccounted⟩

/-- Settling neither loses nor repeats anything. The leaves of a settled body are those of the body and of insertions:
temporaries, which are numbered in order, calls that are waited for, and functions around expressions. In particular
every call is there as often as in the body, next to those of insertions, and `undefined` only where the body refers to
it or a parameter with a default has moved. -/
theorem settle_conserves (body : Expr) (capabilities : Capabilities) (args : List String) :
    ∃ helpers stmts made count, settle body capabilities args = .ok (.mk (helpers ++ stmts) body.span) ∧
      (∀ d ∈ helpers, ∃ name ∈ Prelude.names, Prelude.declaration name = .ok d) ∧
      Insertion.temporaries made = List.range count ∧
      Census.ofStmts true stmts = Census.ofExpr false body + Insertion.census made ∧
      (Census.ofStmts true stmts).filter (Leaf.isCall ·) =
        (Census.ofExpr false body).filter (Leaf.isCall ·) + (made.map Insertion.calls).sum ∧
      (Census.ofStmts true stmts).count (Leaf.refersTo "undefined") =
        (Census.ofExpr false body).count (Leaf.refersTo "undefined") + made.countP Insertion.testsDefault := by
  obtain ⟨helpers, stmts, made, count, hsettle, hhelpers, htemporaries, haccounted⟩ :=
    settle_accounted body capabilities args
  have hcensus : Census.ofStmts true stmts = Census.ofExpr false body + Insertion.census made := haccounted.census
  refine ⟨helpers, stmts, made, count, hsettle, hhelpers, htemporaries, hcensus, ?_, ?_⟩
  · rw [hcensus, Multiset.filter_add, Insertion.filter_isCall_census]
  · rw [hcensus, Census.count_add, Insertion.count_undefined_census]

end FieldScript.Settle
