import FieldScript.Proofs.Settle.AwaitedCalls
import FieldScript.Proofs.Settle.Marks
import FieldScript.Proofs.Validate.FreeNames

/-!
# The awaits of a settled body stand in its functions

The walk over a body is followed case by case, and each case says that the mark of the function at hand
agrees with the trees that are made of its parts.
-/

namespace FieldScript.Settle

open Walk (Ensures)

variable {written : Span → Prop}

theorem markAwait_then {α : Type} {f : Unit → Walk α} {own : α → Bool} {nodes : α → List Node} {used : Bool}
    (h : Marks written false (f ()) true own nodes) : Marks written false (markAwait >>= f) used own nodes := by
  intro out s hs
  refine Ensures.bind (M := fun _ s₁ => s₁ = { s with awaits := true }) rfl ?_
  rintro _ _ rfl
  refine (h out { s with awaits := true } fun _ => rfl).mono ?_
  rintro a s' ⟨hown, new, hquiet, hleaves⟩
  refine ⟨fun _ => hown rfl, new, hquiet, hleaves.hoisted, ?_, hleaves.each, hleaves.front, hleaves.nodes⟩
  rw [hleaves.awaits, hown rfl, Bool.or_true, Bool.or_true, Bool.or_true]

/-- A function whose parameters and body are visited. Its own awaits are none of the function around it. -/
theorem arrow_marks {ps : List Pattern} {body : ArrowBody} {isAsync : Bool} {span : Span}
    (hwritten : isAsync = true → written span)
    (hps : ∀ out s, Ensures (params false ps) out s fun r s' => Takes written s s' r.1 r.2)
    (hbody : Marks written true (arrowBody span body) false OwnAwait.ofArrowBody Node.ofArrowBody) :
    Visits written (expr (.arrow ps body isAsync span)) := by
  intro out s hs
  unfold expr
  refine Ensures.bind (M := fun r s' => s'.hoisted = s.hoisted ∧ s'.awaits = s.awaits ∧
    Legal written (Node.ofExpr (.arrow r.1.1 r.1.2 r.2 span))) (framed_ensures (inScope_ensures ?_)) ?_
  · refine Ensures.bind (hps out _) ?_
    rintro ⟨ps', moved⟩ s₁ htakes
    refine Ensures.bind (hbody out s₁ nofun) ?_
    rintro body' s₂ ⟨-, new, hquiet, hleaves⟩
    have hnone : new = [] := hquiet rfl
    subst hnone
    refine Ensures.pure ⟨?_, rfl, ?_⟩
    · exact hleaves.hoisted.trans ((List.append_nil _).trans htakes.hoisted)
    have hawaits : s₂.awaits = (isAsync || OwnAwait.ofArrowBody (withMoved moved body' span)) := by
      rw [hleaves.awaits, htakes.awaits, ofArrowBody_withMoved_await, OwnAwait.ofStmts, Bool.false_or,
        Bool.or_assoc]
    refine .cons ⟨htakes.params, fun h => ?_, fun h => ?_⟩ (.append htakes.nodes ?_)
    · exact hawaits.trans (by rw [h, Bool.or_true])
    · rcases Bool.or_eq_true_iff.1 (hawaits.symm.trans h) with h | h
      · exact .inr (hwritten h)
      · exact .inl h
    · exact withMoved_legal span htakes.moves hleaves.nodes
  · rintro ⟨⟨ps', body'⟩, awaits⟩ s' ⟨hhoisted, hawaits, hlegal⟩
    refine Ensures.pure (Leaves.still hhoisted ?_ hlegal)
    exact hawaits.trans (Bool.or_false _).symm

/-! ## The walk -/

/-- All nodes are as they may be written. -/
def Plain (written : Span → Prop) (ns : List Node) : Prop := ∀ n ∈ ns, n.Plain written

mutual

theorem expr_marks (e : Expr) (he : Plain written (Node.ofExpr e)) : Visits written (expr e) := by
  cases e with
  | call callee args optional span =>
      simp only [Node.ofExpr, Plain, List.forall_mem_cons, List.forall_mem_append] at he
      unfold expr
      refine Marks.skip (fun _ _ => callsAsync_ensures ⟨rfl, rfl⟩) fun capability => ?_
      refine (inPlace_marks (expr_marks callee he.2.1)).bind fun callee' hcallee =>
        (items_marks args he.2.2).bind fun args' hargs => ?_
      have hcall : Legal written (Node.ofExpr (.call callee' args' optional span)) :=
        .cons trivial (hcallee.append hargs)
      refine Marks.ite (fun _ => Marks.made ?_ ?_) fun _ => Marks.made ?_ hcall
      · simp [joinAll]
      · exact .cons trivial (.append (.cons trivial (.cons trivial .nil)) (.append hcall .nil))
      · simp only [OwnAwait.ofExpr, Bool.false_or]
  | literal lit span => unfold expr; exact Marks.made rfl (.cons trivial .nil)
  | this span => unfold expr; exact Marks.made rfl (.cons trivial .nil)
  | function fn => exact absurd (he _ List.mem_cons_self) id
  | identifier name span =>
      unfold expr
      exact Marks.skip (fun _ _ => noteName_ensures fun _ => ⟨rfl, rfl⟩) fun _ =>
        Marks.made rfl (.cons trivial .nil)
  | template parts es span =>
      simp only [Node.ofExpr, Plain, List.forall_mem_cons] at he
      unfold expr
      refine (values_marks es he.2).bind fun es' hes => Marks.made ?_ (.cons trivial hes)
      simp only [OwnAwait.ofExpr, Bool.false_or]
  | array es span =>
      simp only [Node.ofExpr, Plain, List.forall_mem_cons] at he
      unfold expr
      refine (items_marks es he.2).bind fun es' hes => Marks.made ?_ (.cons trivial hes)
      simp only [OwnAwait.ofExpr, Bool.false_or]
  | object ps span =>
      simp only [Node.ofExpr, Plain, List.forall_mem_cons] at he
      unfold expr
      refine (properties_marks ps he.2).bind fun ps' hps => Marks.made ?_ (.cons trivial hps)
      simp only [OwnAwait.ofExpr, Bool.false_or]
  | member object k optional span =>
      simp only [Node.ofExpr, Plain, List.forall_mem_cons, List.forall_mem_append] at he
      unfold expr
      refine (asObject_marks (expr_marks object he.2.1)).bind fun object' hobject =>
        (key_marks k he.2.2).bind fun k' hk => Marks.made ?_ (.cons trivial (hobject.append hk))
      simp only [OwnAwait.ofExpr, Bool.false_or]
  | arrow ps body isAsync span =>
      simp only [Node.ofExpr, Plain, List.forall_mem_cons, List.forall_mem_append] at he
      exact arrow_marks he.1 (params_takes false ps he.2.1) (arrowBody_marks span body he.2.2)
  | await e span =>
      simp only [Node.ofExpr, Plain, List.forall_mem_cons] at he
      unfold expr
      exact (inPlace_marks (expr_marks e he.2)).bind fun e' he' => markAwait_then <|
        Marks.made rfl (.cons trivial he')
  | unary op e span =>
      simp only [Node.ofExpr, Plain, List.forall_mem_cons] at he
      unfold expr
      refine (inPlace_marks (expr_marks e he.2)).bind fun e' he' => Marks.made ?_ (.cons trivial he')
      simp only [OwnAwait.ofExpr, Bool.false_or]
  | update op before target span =>
      simp only [Node.ofExpr, Plain, List.forall_mem_cons] at he
      unfold expr
      refine (pattern_marks target he.2).bind fun target' htarget => Marks.made ?_ (.cons trivial htarget)
      simp only [OwnAwait.ofExpr, Bool.false_or]
  | binary op left right span =>
      simp only [Node.ofExpr, Plain, List.forall_mem_cons, List.forall_mem_append] at he
      unfold expr
      refine (inPlace_marks (expr_marks left he.2.1)).bind fun left' hleft =>
        (inPlace_marks (expr_marks right he.2.2)).bind fun right' hright =>
          Marks.made ?_ (.cons trivial (hleft.append hright))
      simp only [OwnAwait.ofExpr, Bool.false_or]
  | logical op left right span =>
      simp only [Node.ofExpr, Plain, List.forall_mem_cons, List.forall_mem_append] at he
      unfold expr
      refine (inPlace_marks (expr_marks left he.2.1)).bind fun left' hleft =>
        (lazily_marks (expr_marks right he.2.2)).loud.bind fun right' hright =>
          Marks.made ?_ (.cons trivial (hleft.append hright))
      simp only [OwnAwait.ofExpr, Bool.false_or]
  | conditional test yes no span =>
      simp only [Node.ofExpr, Plain, List.forall_mem_cons, List.forall_mem_append] at he
      unfold expr
      refine (inPlace_marks (expr_marks test he.2.1)).bind fun test' htest =>
        (lazily_marks (expr_marks yes he.2.2.1)).loud.bind fun yes' hyes =>
          (lazily_marks (expr_marks no he.2.2.2)).loud.bind fun no' hno =>
            Marks.made ?_ (.cons trivial (htest.append (hyes.append hno)))
      simp only [OwnAwait.ofExpr, Bool.false_or, Bool.or_assoc]
  | assign op target value span =>
      simp only [Node.ofExpr, Plain, List.forall_mem_cons, List.forall_mem_append] at he
      unfold expr
      refine (pattern_marks target he.2.1).bind fun target' htarget =>
        (inPlace_marks (expr_marks value he.2.2)).bind fun value' hvalue =>
          Marks.made ?_ (.cons trivial (htarget.append hvalue))
      simp only [OwnAwait.ofExpr, Bool.false_or]
  | sequence es span =>
      cases es with
      | nil => unfold expr; exact Marks.made rfl (.cons trivial .nil)
      | cons e more =>
          simp only [Node.ofExpr, Node.ofExprs, Plain, List.forall_mem_cons, List.forall_mem_append] at he
          unfold expr
          refine (inPlace_marks (expr_marks e he.2.1)).bind fun e' he' =>
            (lazyValues_marks more he.2.2).bind fun more' hmore =>
              Marks.made ?_ (.cons trivial (he'.append hmore))
          simp only [OwnAwait.ofExpr, OwnAwait.ofExprs, Bool.false_or]

theorem values_marks (es : List Expr) (hes : Plain written (Node.ofExprs es)) :
    Marks written false (values es) false OwnAwait.ofExprs Node.ofExprs := by
  cases es with
  | nil => unfold values; exact Marks.made rfl .nil
  | cons e more =>
      simp only [Node.ofExprs, Plain, List.forall_mem_append] at hes
      unfold values
      refine (inPlace_marks (expr_marks e hes.1)).bind fun e' he => (values_marks more hes.2).bind
        fun more' hmore => Marks.made ?_ (he.append hmore)
      simp only [OwnAwait.ofExprs, Bool.false_or]

theorem lazyValues_marks (es : List Expr) (hes : Plain written (Node.ofExprs es)) :
    Marks written false (lazyValues es) false OwnAwait.ofExprs Node.ofExprs := by
  cases es with
  | nil => unfold lazyValues; exact Marks.made rfl .nil
  | cons e more =>
      simp only [Node.ofExprs, Plain, List.forall_mem_append] at hes
      unfold lazyValues
      refine (lazily_marks (expr_marks e hes.1)).loud.bind fun e' he => (lazyValues_marks more hes.2).bind
        fun more' hmore => Marks.made ?_ (he.append hmore)
      simp only [OwnAwait.ofExprs, Bool.false_or]

theorem items_marks (es : List Item) (hes : Plain written (Node.ofItems es)) :
    Marks written false (items es) false OwnAwait.ofItems Node.ofItems := by
  match es with
  | [] => unfold items; exact Marks.made rfl .nil
  | .hole :: more =>
      unfold items
      refine (items_marks more hes).bind fun more' hmore => Marks.made ?_ hmore
      simp only [OwnAwait.ofItems, Bool.false_or]
  | .expr e :: more =>
      simp only [Node.ofItems, Plain, List.forall_mem_append] at hes
      unfold items
      refine (inPlace_marks (expr_marks e hes.1)).bind fun e' he => (items_marks more hes.2).bind
        fun more' hmore => Marks.made ?_ (he.append hmore)
      simp only [OwnAwait.ofItems, Bool.false_or]
  | .spread e :: more =>
      simp only [Node.ofItems, Plain, List.forall_mem_append] at hes
      unfold items
      refine (inPlace_marks (expr_marks e hes.1)).bind fun e' he => (items_marks more hes.2).bind
        fun more' hmore => Marks.made ?_ (he.append hmore)
      simp only [OwnAwait.ofItems, Bool.false_or]

theorem key_marks (k : Key) (hk : Plain written (Node.ofKey k)) :
    Marks written false (key k) false OwnAwait.ofKey Node.ofKey := by
  cases k with
  | computed e =>
      unfold key
      refine (inPlace_marks (expr_marks e hk)).bind fun e' he => Marks.made ?_ he
      simp only [OwnAwait.ofKey, Bool.false_or]
  | name id => unfold key; exact Marks.made rfl .nil
  | literal lit => unfold key; exact Marks.made rfl .nil

theorem properties_marks (ps : List Property) (hps : Plain written (Node.ofProperties ps)) :
    Marks written false (properties ps) false OwnAwait.ofProperties Node.ofProperties := by
  match ps with
  | [] => unfold properties; exact Marks.made rfl .nil
  | .spread e :: more =>
      simp only [Node.ofProperties, Plain, List.forall_mem_append] at hps
      unfold properties
      refine (inPlace_marks (expr_marks e hps.1)).bind fun e' he => (properties_marks more hps.2).bind
        fun more' hmore => Marks.made ?_ (he.append hmore)
      simp only [OwnAwait.ofProperties, Bool.false_or]
  | .init k value shorthand span :: more =>
      simp only [Node.ofProperties, Plain, List.forall_mem_append] at hps
      unfold properties
      refine (key_marks k hps.1).bind fun k' hk =>
        (inPlace_marks (expr_marks value hps.2.1)).bind fun value' hvalue =>
          (properties_marks more hps.2.2).bind fun more' hmore =>
            Marks.made ?_ (hk.append (hvalue.append hmore))
      simp only [OwnAwait.ofProperties, Bool.false_or, Bool.or_assoc]

theorem arrowBody_marks (span : Span) (body : ArrowBody) (hbody : Plain written (Node.ofArrowBody body)) :
    Marks written true (arrowBody span body) false OwnAwait.ofArrowBody Node.ofArrowBody := by
  cases body with
  | expr e => unfold arrowBody; exact exprBody_marks _ span (expr_marks e hbody)
  | block b =>
      unfold arrowBody
      refine (block_marks b hbody).bind fun b' hb => Marks.made ?_ hb
      simp only [OwnAwait.ofArrowBody, Bool.false_or]

theorem params_takes (moved : Bool) (ps : List Pattern) (hps : Plain written (Node.ofPatterns ps))
    (out : Outside) (s : State) :
    Ensures (params moved ps) out s fun r s' => Takes written s s' r.1 r.2 := by
  cases ps with
  | nil =>
      unfold params
      exact Ensures.pure ⟨rfl, by rw [OwnAwait.ofStmts, Bool.or_false], rfl, .nil, .nil⟩
  | cons p more =>
      simp only [Node.ofPatterns, Plain, List.forall_mem_append] at hps
      unfold params
      refine Ensures.bind (param_takes moved (pattern_marks p hps.1) out s) ?_
      rintro ⟨p', decls⟩ s₁ hp
      refine Ensures.bind (params_takes (moved || !decls.isEmpty) more hps.2 out s₁) ?_
      rintro ⟨more', others⟩ s₂ hmore
      exact Ensures.pure (hp.cons hmore)

theorem pattern_marks (p : Pattern) (hp : Plain written (Node.ofPattern p)) :
    Marks written false (pattern p) false OwnAwait.ofPattern Node.ofPattern := by
  cases p with
  | ident id => unfold pattern; exact Marks.made rfl (.cons trivial .nil)
  | hole => unfold pattern; exact Marks.made rfl (.cons trivial .nil)
  | array elements span =>
      simp only [Node.ofPattern, Plain, List.forall_mem_cons] at hp
      unfold pattern
      refine (patterns_marks elements hp.2).bind fun elements' h => Marks.made ?_ (.cons trivial h)
      simp only [OwnAwait.ofPattern, Bool.false_or]
  | object props span =>
      simp only [Node.ofPattern, Plain, List.forall_mem_cons] at hp
      unfold pattern
      refine (patternProps_marks props hp.2).bind fun props' h => Marks.made ?_ (.cons trivial h)
      simp only [OwnAwait.ofPattern, Bool.false_or]
  | assign target default =>
      simp only [Node.ofPattern, Plain, List.forall_mem_cons, List.forall_mem_append] at hp
      unfold pattern
      refine (pattern_marks target hp.2.1).bind fun target' htarget =>
        (lazily_marks (expr_marks default hp.2.2)).loud.bind fun default' hdefault =>
          Marks.made ?_ (.cons trivial (htarget.append hdefault))
      simp only [OwnAwait.ofPattern, Bool.false_or]
  | rest target =>
      simp only [Node.ofPattern, Plain, List.forall_mem_cons] at hp
      unfold pattern
      refine (pattern_marks target hp.2).bind fun target' h => Marks.made ?_ (.cons trivial h)
      simp only [OwnAwait.ofPattern, Bool.false_or]
  | member e =>
      simp only [Node.ofPattern, Plain, List.forall_mem_cons] at hp
      unfold pattern
      refine (expr_marks e hp.2).bind fun e' he => Marks.made ?_ (.cons trivial he)
      simp only [OwnAwait.ofPattern, Bool.false_or]

theorem patterns_marks (ps : List Pattern) (hps : Plain written (Node.ofPatterns ps)) :
    Marks written false (patterns ps) false OwnAwait.ofPatterns Node.ofPatterns := by
  cases ps with
  | nil => unfold patterns; exact Marks.made rfl .nil
  | cons p more =>
      simp only [Node.ofPatterns, Plain, List.forall_mem_append] at hps
      unfold patterns
      refine (pattern_marks p hps.1).bind fun p' hp => (patterns_marks more hps.2).bind
        fun more' hmore => Marks.made ?_ (hp.append hmore)
      simp only [OwnAwait.ofPatterns, Bool.false_or]

theorem patternProps_marks (ps : List PatternProp) (hps : Plain written (Node.ofPatternProps ps)) :
    Marks written false (patternProps ps) false OwnAwait.ofPatternProps Node.ofPatternProps := by
  match ps with
  | [] => unfold patternProps; exact Marks.made rfl .nil
  | .init k value shorthand :: more =>
      simp only [Node.ofPatternProps, Plain, List.forall_mem_append] at hps
      unfold patternProps
      refine (key_marks k hps.1).bind fun k' hk => (pattern_marks value hps.2.1).bind fun value' hvalue =>
        (patternProps_marks more hps.2.2).bind fun more' hmore =>
          Marks.made ?_ (hk.append (hvalue.append hmore))
      simp only [OwnAwait.ofPatternProps, Bool.false_or, Bool.or_assoc]
  | .rest target :: more =>
      simp only [Node.ofPatternProps, Plain, List.forall_mem_append] at hps
      unfold patternProps
      refine (pattern_marks target hps.1).bind fun target' htarget => (patternProps_marks more hps.2).bind
        fun more' hmore => Marks.made ?_ (htarget.append hmore)
      simp only [OwnAwait.ofPatternProps, Bool.false_or]

theorem block_marks (b : Block) (hb : Plain written (Node.ofBlock b)) :
    Marks written true (block b) false OwnAwait.ofBlock Node.ofBlock := by
  obtain ⟨stmts, span⟩ := b
  unfold block
  refine (statements_marks stmts hb).inScope.bind fun outs houts => Marks.made ?_ houts
  simp only [OwnAwait.ofBlock, Bool.false_or]

theorem statements_marks (ss : List Stmt) (hss : Plain written (Node.ofStmts ss)) :
    Marks written true (statements ss) false OwnAwait.ofStmts Node.ofStmts := by
  cases ss with
  | nil => unfold statements; exact Marks.made rfl .nil
  | cons stmt more =>
      simp only [Node.ofStmts, Plain, List.forall_mem_append] at hss
      unfold statements
      refine (statement_marks stmt hss.1).bind fun outs houts => (statements_marks more hss.2).bind
        fun outs' houts' => Marks.made ?_ ?_
      · rw [OwnAwait.ofStmts_append, Bool.false_or]
      · rw [Node.ofStmts_append]
        exact houts.append houts'

theorem statement_marks (stmt : Stmt) (hstmt : Plain written (Node.ofStmt stmt)) :
    Marks written true (statement stmt) false OwnAwait.ofStmts Node.ofStmts := by
  match stmt with
  | .declare (.mk kind ds dspan) span =>
      simp only [Node.ofStmt, Node.ofVarDecl, Plain, List.forall_mem_cons] at hstmt
      rw [statement_declare]
      exact declaration_marks kind span [] ds .nil hstmt.2
  | .expr e span =>
      simp only [Node.ofStmt, Plain, List.forall_mem_cons] at hstmt
      rw [statement_expr]
      refine placed_marks ((inPlace_marks (expr_marks e hstmt.2)).bind fun e' he =>
        Marks.made ?_ (.cons trivial he))
      simp only [OwnAwait.ofStmt, Bool.false_or]
  | .return (some e) span =>
      simp only [Node.ofStmt, Node.ofOption, Plain, List.forall_mem_cons] at hstmt
      rw [statement_return]
      refine placed_marks ((inPlace_marks (expr_marks e hstmt.2)).bind fun e' he =>
        Marks.made ?_ (.cons trivial he))
      simp only [OwnAwait.ofStmt, OwnAwait.ofOption, Bool.false_or]
  | .cond test yes none span =>
      simp only [Node.ofStmt, Plain, List.forall_mem_cons, List.forall_mem_append] at hstmt
      rw [statement_cond]
      refine placed_marks ((inPlace_marks (expr_marks test hstmt.2.1)).bind fun test' htest =>
        (statement_marks yes hstmt.2.2.1).inScope.loud.bind fun outs houts =>
          Marks.made ?_ (.cons trivial (htest.append ((bodyOf_legal yes houts).append .nil))))
      simp only [OwnAwait.ofStmt, ofStmt_bodyOf_await, Bool.false_or, Bool.or_false]
  | .cond test yes (some no) span =>
      simp only [Node.ofStmt, Plain, List.forall_mem_cons, List.forall_mem_append] at hstmt
      rw [statement_cond_else]
      refine placed_marks ((inPlace_marks (expr_marks test hstmt.2.1)).bind fun test' htest =>
        (statement_marks yes hstmt.2.2.1).inScope.loud.bind fun outs houts =>
          (statement_marks no hstmt.2.2.2).inScope.loud.bind fun outs' houts' => Marks.made ?_
            (.cons trivial (htest.append ((bodyOf_legal yes houts).append (bodyOf_legal no houts')))))
      simp only [OwnAwait.ofStmt, ofStmt_bodyOf_await, Bool.false_or, Bool.or_assoc]
  | .while test body span =>
      simp only [Node.ofStmt, Plain, List.forall_mem_cons, List.forall_mem_append] at hstmt
      rw [statement_while]
      refine placed_marks ((lazily_marks (expr_marks test hstmt.2.1)).loud.bind fun test' htest =>
        (statement_marks body hstmt.2.2).inScope.loud.bind fun outs houts =>
          Marks.made ?_ (.cons trivial (htest.append (bodyOf_legal body houts))))
      simp only [OwnAwait.ofStmt, ofStmt_bodyOf_await, Bool.false_or]
  | .doWhile body test span =>
      simp only [Node.ofStmt, Plain, List.forall_mem_cons, List.forall_mem_append] at hstmt
      rw [statement_doWhile]
      refine placed_marks ((statement_marks body hstmt.2.1).inScope.loud.bind fun outs houts =>
        (lazily_marks (expr_marks test hstmt.2.2)).loud.bind fun test' htest =>
          Marks.made ?_ (.cons trivial ((bodyOf_legal body houts).append htest)))
      simp only [OwnAwait.ofStmt, ofStmt_bodyOf_await, Bool.false_or]
  | .for init test update body span =>
      simp only [Node.ofStmt, Plain, List.forall_mem_cons, List.forall_mem_append] at hstmt
      obtain ⟨_, hinit, htest, hupdate, hbody⟩ := hstmt
      rw [statement_for]
      refine placed_marks (Marks.inScope ((forInit_marks init hinit).bind fun init' hinit' =>
        (clause_marks test htest).bind fun test' htest' => (clause_marks update hupdate).bind
          fun update' hupdate' => (statement_marks body hbody).inScope.loud.bind fun outs houts =>
            Marks.made ?_ (.cons trivial (hinit'.append (htest'.append (hupdate'.append
              (bodyOf_legal body houts)))))))
      simp only [OwnAwait.ofStmt, ofStmt_bodyOf_await, Bool.false_or, Bool.or_assoc]
  | .block b =>
      simp only [Node.ofStmt, Plain, List.forall_mem_cons] at hstmt
      rw [statement_block]
      refine placed_marks ((block_marks b hstmt.2).loud.bind fun b' hb => Marks.made ?_ (.cons trivial hb))
      simp only [OwnAwait.ofStmt, Bool.false_or]
  | .return none span => exact Marks.made rfl (.cons trivial .nil)
  | .break span => exact Marks.made rfl (.cons trivial .nil)
  | .continue span => exact Marks.made rfl (.cons trivial .nil)
  | .debugger span => exact Marks.made rfl (.cons trivial .nil)
  | .empty span => exact Marks.made rfl (.cons trivial .nil)
  | .function fn => exact absurd (hstmt _ List.mem_cons_self) id

theorem clause_marks (e : Option Expr) (he : Plain written (Node.ofOption e)) :
    Marks written false (optionally (fun e => lazily (expr e)) e) false OwnAwait.ofOption Node.ofOption := by
  cases e with
  | none => exact Marks.made rfl .nil
  | some e =>
      refine (lazily_marks (expr_marks e he)).loud.bind fun e' he' => Marks.made ?_ he'
      simp only [OwnAwait.ofOption, Bool.false_or]

theorem initial_marks (e : Option Expr) (he : Plain written (Node.ofOption e)) :
    Marks written false (optionally (fun e => inPlace (expr e)) e) false OwnAwait.ofOption Node.ofOption := by
  cases e with
  | none => exact Marks.made rfl .nil
  | some e =>
      refine (inPlace_marks (expr_marks e he)).bind fun e' he' => Marks.made ?_ he'
      simp only [OwnAwait.ofOption, Bool.false_or]

theorem forInit_marks (init : ForInit) (hinit : Plain written (Node.ofForInit init)) :
    Marks written false (forInit init) false OwnAwait.ofForInit Node.ofForInit := by
  match init with
  | .absent => unfold forInit; exact Marks.made rfl .nil
  | .expr e =>
      unfold forInit
      refine (inPlace_marks (expr_marks e hinit)).bind fun e' he => Marks.made ?_ he
      simp only [OwnAwait.ofForInit, Bool.false_or]
  | .declare (.mk kind [] dspan) => unfold forInit; exact Marks.made rfl .nil
  | .declare (.mk kind (.mk target first dspan :: more) span) =>
      simp only [Node.ofForInit, Node.ofVarDecl, Node.ofDeclarators, Plain, List.forall_mem_append] at hinit
      rw [forInit_declare]
      refine (declares_marks dspan (pattern_marks target hinit.1) (initial_marks first hinit.2.1)).bind
        fun d hd => (lazyDeclarators_marks more hinit.2.2).bind fun more' hmore => Marks.made ?_ ?_
      · rw [OwnAwait.ofForInit, ofDeclarators_cons_await d, Bool.false_or]
      · exact ofDeclarators_cons_legal hd hmore

theorem lazyDeclarators_marks (ds : List Declarator) (hds : Plain written (Node.ofDeclarators ds)) :
    Marks written false (lazyDeclarators ds) false OwnAwait.ofDeclarators Node.ofDeclarators := by
  match ds with
  | [] => unfold lazyDeclarators; exact Marks.made rfl .nil
  | .mk target init span :: more =>
      simp only [Node.ofDeclarators, Plain, List.forall_mem_append] at hds
      rw [lazyDeclarators_cons]
      refine (declares_marks span (pattern_marks target hds.1) (clause_marks init hds.2.1)).bind
        fun d hd => (lazyDeclarators_marks more hds.2.2).bind fun more' hmore => Marks.made ?_ ?_
      · rw [ofDeclarators_cons_await d, Bool.false_or]
      · exact ofDeclarators_cons_legal hd hmore

theorem declaration_marks (kind : DeclKind) (span : Span) (waiting ds : List Declarator)
    (hwaiting : Legal written (Node.ofDeclarators waiting)) (hds : Plain written (Node.ofDeclarators ds)) :
    Marks written true (declaration kind span waiting ds) (OwnAwait.ofDeclarators waiting) OwnAwait.ofStmts
      Node.ofStmts := by
  match ds with
  | [] =>
      unfold declaration
      cases waiting with
      | nil => exact Marks.made rfl .nil
      | cons d more =>
          refine Marks.made ?_ (.append (.cons trivial hwaiting) .nil)
          exact Bool.or_false _
  | .mk target init dspan :: more =>
      simp only [Node.ofDeclarators, Plain, List.forall_mem_append] at hds
      rw [declaration_cons]
      have hd := declares_marks dspan (pattern_marks target hds.1) (initial_marks init hds.2.1)
      refine hd.collected.bind ?_
      rintro ⟨d, decls⟩ hlegal
      obtain ⟨hdecls, hlast⟩ := List.forall_mem_append.1 hlegal
      have hone : OwnAwait.ofDeclarators [d] = true → (OwnAwait.ofDeclarators waiting ||
          (OwnAwait.ofStmts decls || OwnAwait.ofDeclarators [d])) = true := by
        intro h
        rw [h, Bool.or_true, Bool.or_true]
      refine Marks.ite (fun _ => ?_) fun _ => ?_
      · -- the statement is split: what waits is declared, and then what this declarator needs
        refine (declaration_marks kind span [d] more hlast hds.2.2).bind_using hone fun outs hown houts =>
          Marks.made ?_ ?_
        · rw [List.cons_append, OwnAwait.ofStmts, OwnAwait.ofStmts_append, declareStmt, OwnAwait.ofStmt]
          cases hd : OwnAwait.ofDeclarators [d] with
          | false => rw [Bool.or_false, Bool.or_assoc]
          | true => rw [hown hd, Bool.or_true, Bool.or_true, Bool.or_true]
        · rw [List.cons_append, Node.ofStmts, Node.ofStmts_append]
          exact .append (.cons trivial hwaiting) (.append hdecls houts)
      · have hsome : OwnAwait.ofDeclarators (waiting ++ [d]) = true → (OwnAwait.ofDeclarators waiting ||
            (OwnAwait.ofStmts decls || OwnAwait.ofDeclarators [d])) = true := by
          intro h
          rw [OwnAwait.ofDeclarators_append] at h
          rcases Bool.or_eq_true_iff.1 h with h | h
          · rw [h, Bool.true_or]
          · exact hone h
        have hlater : Legal written (Node.ofDeclarators (waiting ++ [d])) := by
          rw [Node.ofDeclarators_append]
          exact hwaiting.append hlast
        refine (declaration_marks kind span (waiting ++ [d]) more hlater hds.2.2).bind_using hsome
          fun outs hown houts => Marks.made ?_ ?_
        · rw [OwnAwait.ofStmts_append]
          rw [OwnAwait.ofDeclarators_append] at hown
          cases hw : OwnAwait.ofDeclarators waiting with
          | true => rw [hown (by rw [hw, Bool.true_or]), Bool.or_true, Bool.or_true]
          | false =>
              cases hd : OwnAwait.ofDeclarators [d] with
              | false => rw [Bool.or_false, Bool.false_or]
              | true => rw [hown (by rw [hd, Bool.or_true]), Bool.or_true, Bool.or_true]
        · rw [Node.ofStmts_append]
          exact .append hdecls houts

end

/-! ## Settled bodies -/

/-- The functions of the prelude do not await. -/
theorem prelude_isSynchronous : ∀ name ∈ Prelude.names, ∀ d ∈ (Prelude.declaration name).toOption,
    (Node.ofStmt d).all Node.isSynchronous = true := by
  intro name hname d hd
  obtain ⟨d', hd', hfunction⟩ := Prelude.exists_declaration hname
  rw [hd'] at hd
  cases hd
  exact Stmt.isSynchronous_of_isFunction hfunction

/-- An arrow function that is written as asynchronous in a body. -/
def WrittenAsync (body : Expr) (span : Span) : Prop :=
  ∃ ps inner, Node.expr (.arrow ps inner true span) ∈ body.nodes

/-- Admissible bodies are plain. -/
theorem plain_of_admissible {body : Expr} {debug : Bool} (h : Admissible debug body.nodes) :
    Plain (WrittenAsync body) body.nodes := by
  intro n hn
  have hallowed := h n hn
  cases n with
  | expr e =>
      cases e with
      | arrow ps inner isAsync span =>
          rintro rfl
          exact ⟨ps, inner, hn⟩
      | function fn => cases hallowed
      | _ => exact trivial
  | pattern p => exact trivial
  | stmt s =>
      cases s with
      | function fn => cases hallowed
      | _ => exact trivial

/-- In a settled body every function has its awaits in its body and none among its parameters. A function
with an `await` of its own is asynchronous, and an asynchronous function has one or was written as one. There
are no functions other than arrow functions, so that every other `await` is one of the body as a whole. -/
theorem settle_marks_functions (body : Expr) (capabilities : Capabilities) (args : List String) (debug : Bool)
    (hvalid : body.validate capabilities args debug = .ok ()) :
    ∃ block, settle body capabilities args = .ok block ∧
      ∀ n ∈ Node.ofBlock block, n.Legal (WrittenAsync body) := by
  obtain ⟨helpers, hhelpers, stmts, hsettle, hstmts⟩ := Awaited.settle_eq body capabilities args
  have hplain : Plain (WrittenAsync body) (Node.ofStmt (returning body)) := by
    refine List.forall_mem_cons.2 ⟨trivial, ?_⟩
    exact plain_of_admissible (Expr.nodes_admissible hvalid)
  refine ⟨_, hsettle, ?_⟩
  rw [Node.ofBlock, Node.ofStmts_append, List.forall_mem_append]
  constructor
  · intro n hn
    obtain ⟨d, hd, hnode⟩ := Node.mem_ofStmts.1 hn
    obtain ⟨name, hname, hdeclaration⟩ := hhelpers d hd
    have hall := prelude_isSynchronous name hname d (by rw [hdeclaration]; rfl)
    exact Node.legal_of_isSynchronous (List.all_eq_true.1 hall n hnode)
  · refine hstmts (fun stmts => Legal (WrittenAsync body) (Node.ofStmts stmts)) ?_
    refine ((statement_marks (returning body) hplain).inScope _ _ nofun).mono ?_
    rintro outs s' ⟨-, new, -, hleaves⟩
    exact hleaves.nodes

/-- The function `(x = get(x).y) => x`, whose default needs a temporary. -/
def awaitingDefault : Expr :=
  let s := Span.point 0
  let x := Expr.identifier "x" s
  let default := Expr.member (.call (.identifier "get" s) [.expr x] false s) (.name ⟨"y", s⟩) false s
  .arrow [.assign (.ident ⟨"x", s⟩) default] (.expr x) false s

/-- It passes validation if `x` is an argument, and what it becomes is marked as it should be. -/
theorem awaitingDefault_marked :
    awaitingDefault.validate ⟨[("get", true)]⟩ ["x"] false = .ok () ∧
      ∃ block, settle awaitingDefault ⟨[("get", true)]⟩ ["x"] = .ok block ∧
        ∀ n ∈ Node.ofBlock block, n.Legal (WrittenAsync awaitingDefault) := by
  have hvalid : awaitingDefault.validate ⟨[("get", true)]⟩ ["x"] false = .ok () := rfl
  exact ⟨hvalid, settle_marks_functions awaitingDefault ⟨[("get", true)]⟩ ["x"] false hvalid⟩

end FieldScript.Settle
