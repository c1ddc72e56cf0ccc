import FieldScript.Proofs.Parse.NamedParts
import FieldScript.Proofs.Parse.Operands
import FieldScript.Syntax.Parse

/-!
# Names of trees that are read

The parsers with operators and those of statements, and from them the grammar at every depth. Reading from a source never
runs into a bound (`exprAt_error`), and every name of the tree stands in the source where it says (`exprAt_named`).
-/

namespace FieldScript.Parse

open Token (Kind Stream)
open Node

attribute [local simp] Node.Named ofExpr ofExprs ofItems ofKey ofProperties ofArrowBody ofFunction ofPattern ofPatterns
  ofPatternProps ofStmt ofOption ofBlock ofStmts ofVarDecl ofDeclarators ofForInit

variable {I : Ident → Prop} {g : Grammar} {N : Token → Prop} {n fuel : Nat} {t : Token}

/-! ## Operators -/

/-- The end of the text is no operator. -/
theorem isEof_of_op {α : Type} {op? : Kind → Option α} {op : α} (h : op? t.kind = some op) (heof : op? .eof = none) :
    t.isEof = false := by
  rw [Token.isEof_eq]
  cases hkind : t.kind with
  | eof =>
      rw [hkind, heof] at h
      cases h
  | _ => rfl

theorem suffixed_draws (hg : NamedGrammar I n g) : Draws I N (n + 1) 1 (suffixed g) fun e => Named I (ofExpr e) := by
  refine .enter (primary_draws hg) fun e₀ he₀ => .bound fun m hm => ?_
  refine .bind (chain_draws (hg.le hm) he₀ (Nat.le_refl m)) fun e he => .peek fun t _ _ => ?_
  split
  · split
    · exact .pure he
    · refine .advance fun _ _ _ => .lift (toSimpleTarget_textual e) fun p hp => .pure ?_
      simpa using toSimpleTarget_named hp he
  · exact .pure he

theorem unary_draws (hg : NamedGrammar I n g) : Draws I N (n + 1) 1 (unary g) fun e => Named I (ofExpr e) := by
  refine .peek fun t _ _ => ?_
  split
  · rename_i op hop
    exact .skip (isEof_of_op hop rfl) (.bind hg.unary.lax fun e he => .pure (by simpa using he))
  · split
    · rename_i hword
      exact .skip (Draws.isEof_of_isKeyword hword) (.bind hg.unary.lax fun e he => .pure (by simpa using he))
    · split
      · rename_i op hop
        refine .skip (isEof_of_op hop rfl) (.bind hg.unary.lax fun e he => ?_)
        exact .lift (toSimpleTarget_textual e) fun p hp => .pure (by simpa using toSimpleTarget_named hp he)
      · exact (suffixed_draws hg).any

theorem infixFrom_draws (hg : NamedGrammar I n g) (least : Nat) {left : Expr} (hleft : Named I (ofExpr left))
    (hn : n ≤ fuel) : Draws I N n 0 (infixFrom g least left fuel) fun e => Named I (ofExpr e) := by
  induction fuel generalizing N n left with
  | zero =>
      obtain rfl : n = 0 := Nat.le_zero.1 hn
      exact .zero
  | succ fuel ih =>
      cases n with
      | zero => exact .zero
      | succ n =>
          refine .peek fun t _ _ => ?_
          split
          · rename_i op hop
            split
            · exact .pure hleft
            · have hless := hg.le (Nat.le_succ n)
              refine Draws.lax (.skip (isEof_of_op hop rfl) (.bind (hless.binary _).lax fun right hright => ?_))
              refine ih hless ?_ (by omega)
              cases op <;> simp [InfixOp.apply, hleft, hright]
          · exact .pure hleft

theorem binary_draws (hg : NamedGrammar I n g) (least : Nat) :
    Draws I N (n + 1) 1 (binary g least) fun e => Named I (ofExpr e) :=
  .enter (unary_draws hg) fun _ he => .bound fun m hm => infixFrom_draws (hg.le hm) least he (Nat.le_refl m)

theorem conditional_draws (hg : NamedGrammar I n g) :
    Draws I N (n + 1) 1 (conditional g) fun e => Named I (ofExpr e) := by
  refine .enter (binary_draws hg 1) fun test htest => .eatPunct ?_ (.pure htest)
  refine .bind hg.assignment.lax fun yes hyes => .expectPunct fun _ => .bind hg.assignment.lax fun no hno => .pure ?_
  simp [htest, hyes, hno]

/-! ## Arrow functions and assignments -/

/-- What a body goes on with depends on its names only. -/
theorem arrowBody_draws (hg : NamedGrammar I n g) {k : ArrowBody → Parser Expr}
    (hk : ∀ body, Named I (ofArrowBody body) → Draws I AnyToken n 0 (k body) fun e => Named I (ofExpr e)) :
    Draws I AnyToken n 0 (atPunct .openBrace >>= fun b => if b = true then ArrowBody.block <$> block g >>= k else
      ArrowBody.expr <$> g.assignment >>= k) fun e => Named I (ofExpr e) := by
  refine .atPunct fun b => ?_
  cases b with
  | true =>
      have hblock : Draws I AnyToken n 1 (block g) fun b => Named I (ofBlock b) := (block_draws hg).le (Nat.le_succ n)
      exact .bind (Q := fun body => Named I (ofArrowBody body)) (.map (hblock.any.lax.mono fun b hb => by simpa using hb)) hk
  | false =>
      exact .bind (Q := fun body => Named I (ofArrowBody body))
        (.map (hg.assignment.any.lax.mono fun e he => by simpa using he)) hk

theorem arrowRest_draws (hg : NamedGrammar I n g) (start : Token) (isAsync : Bool) :
    Draws I N (n + 1) 1 (arrowRest g start isAsync) fun e => Named I (ofExpr e) := by
  have hrest : ∀ ps, Named I (ofPatterns ps) → Draws I AnyToken n 0 (expectPunct .arrow >>= fun _ =>
      atPunct .openBrace >>= fun b => if b = true then ArrowBody.block <$> block g >>= fun body => spanFrom start.span >>=
        fun span => pure (Expr.arrow ps body isAsync span) else ArrowBody.expr <$> g.assignment >>= fun body =>
          spanFrom start.span >>= fun span => pure (Expr.arrow ps body isAsync span)) fun e => Named I (ofExpr e) := by
    intro ps hps
    refine .expectPunct fun _ => arrowBody_draws hg fun body hbody => .spanFrom fun span => .pure ?_
    rw [ofExpr, named_cons, named_append]
    exact ⟨trivial, hps, hbody⟩
  refine .eatPunct_seq (m := n) (.bind (params_draws hg) hrest) ?_ (Nat.le_refl _) (Nat.le_refl _)
  exact .enter bindingName_draws fun id hid => hrest [.ident id] (by simpa using hid)

theorem arrow_draws (hg : NamedGrammar I n g) : Draws I N (n + 1) 1 (arrow g) fun e => Named I (ofExpr e) := by
  refine .peek fun start _ _ => ?_
  split
  · rename_i hword
    refine .peekNth fun next => ?_
    split
    · exact arrowRest_draws hg start false
    · exact .skip (Draws.isEof_of_isKeyword hword) ((arrowRest_draws hg start true).le (Nat.le_succ n)).lax
  · exact arrowRest_draws hg start false

theorem afterParens_textual {s : Stream} (hs : s.Names I) (depth : Nat) :
    Textual (afterParens depth s) ∧ ∀ rest, afterParens depth s = .ok (some rest) → rest.Names I := by
  induction s generalizing depth with
  | cons t rest ih =>
      unfold afterParens
      split
      · exact ih hs.2.2 _
      · exact ih hs.2.2 _
      · exact ih hs.2.2 _
      · split
        · refine ⟨.ok _, ?_⟩
          rintro _ ⟨⟩
          exact hs.2.2
        · exact ih hs.2.2 _
      · split
        · refine ⟨.ok _, ?_⟩
          rintro _ ⟨⟩
          exact hs.2.2
        · exact ih hs.2.2 _
      · split
        · refine ⟨.ok _, ?_⟩
          rintro _ ⟨⟩
          exact hs.2.2
        · exact ih hs.2.2 _
      · exact ih hs.2.2 _
      · exact ih hs.2.2 _
      · exact ih hs.2.2 _
  | done t => exact ⟨.ok none, nofun⟩
  | failed fault =>
      refine ⟨?_, nofun⟩
      rintro _ ⟨⟩
      exact hs

theorem parametersAhead_textual {s : Stream} (hs : s.Names I) : Textual (parametersAhead s) := by
  cases s with
  | cons t rest =>
      simp only [parametersAhead]
      split
      · exact (nth_textual hs.2.2 0).map
      · exact (nth_textual hs.2.2 0).map
      · obtain ⟨htextual, hrest⟩ := afterParens_textual hs 0
        refine htextual.bind fun after hafter => ?_
        split
        · exact (nth_textual (hrest _ hafter) 0).bind fun _ _ => .ok _
        · exact .ok _
      · exact .ok _
  | done t => exact .ok _
  | failed fault =>
      rintro _ ⟨⟩
      exact hs

theorem arrowAhead_textual {s : Stream} (hs : s.Names I) : Textual (arrowAhead s) := by
  cases s with
  | cons t rest =>
      unfold arrowAhead
      refine .ite ((nth_textual hs.2.2 0).bind fun next _ => .ite (.ok _) ?_) (parametersAhead_textual hs)
      split
      · exact parametersAhead_textual hs.2.2
      · exact parametersAhead_textual hs.2.2
      · exact .ok _
      · exact .ok _
  | done t => exact .ok _
  | failed fault =>
      rintro _ ⟨⟩
      exact hs

theorem assigned_draws (hg : NamedGrammar I n g) {left : Expr} (hleft : Named I (ofExpr left)) :
    Draws I N n 0 (assigned g left) fun e => Named I (ofExpr e) := by
  refine .peek fun t _ _ => ?_
  split
  · exact .pure hleft
  · rename_i op _
    have hrest : ∀ p, Named I (ofPattern p) → Draws I (· = t) n 0 (advance >>= fun _ => g.assignment >>= fun value =>
        pure (Expr.assign op p value (p.span.merge value.span))) fun e => Named I (ofExpr e) := fun p hp =>
      .advance fun _ _ _ => .bind hg.assignment.lax fun value hvalue => .pure (by simp [hp, hvalue])
    split
    · exact .lift (toPattern_textual left) fun p hp => hrest p (toPattern_named left hp hleft)
    · exact .lift (toSimpleTarget_textual left) fun p hp => hrest p (toSimpleTarget_named hp hleft)

theorem assignment_draws (hg : NamedGrammar I n g) :
    Draws I N (n + 1) 1 (assignment g) fun e => Named I (ofExpr e) := by
  refine .look (x := get) (Q := fun st => st.stream.Names I) (fun _ _ => .ok _) ?_ fun st hst => ?_
  · rintro st _ _ hst ⟨⟩
    exact ⟨rfl, hst⟩
  · refine .lift (arrowAhead_textual hst) fun b _ => ?_
    split
    · exact arrow_draws hg
    · exact .enter (conditional_draws hg) fun left hleft => assigned_draws hg hleft

/-! ## Statements -/

theorem parenthesised_draws (hg : NamedGrammar I n g) :
    Draws I N n 0 (parenthesised g) fun e => Named I (ofExpr e) :=
  .expectPunct fun _ => .bind (expression_draws hg).lax fun _ he => .expectPunct fun _ => .pure he

theorem declarator_draws (hg : NamedGrammar I n g) :
    Draws I N n 1 (declarator g) fun d => Named I (ofDeclarators [d]) := by
  refine .first hg.bindingTarget.any fun p hp => .eatPunct ?_ (.spanFrom fun span => .pure (by simp [hp]))
  refine .bind (Q := fun init => Named I (ofOption init)) (.map (hg.assignment.lax.mono fun e he => by simpa using he))
    fun init hinit => .spanFrom fun span => .pure ?_
  simpa [hp] using hinit

theorem declarators_draws (hg : NamedGrammar I n g) (hn : n ≤ fuel) :
    Draws I N n 0 (declarators g fuel) fun ds => ∀ d ∈ ds, Named I (ofDeclarators [d]) := by
  induction fuel generalizing N n with
  | zero =>
      obtain rfl : n = 0 := Nat.le_zero.1 hn
      exact .zero
  | succ fuel ih =>
      cases n with
      | zero => exact .zero
      | succ n =>
          refine Draws.lax (.enter (declarator_draws hg) fun d hd => .eatPunct ?_ (.pure ?_))
          · refine .bind (ih (hg.le (Nat.le_succ n)) (by omega)) fun ds hds => .pure ?_
            exact List.forall_mem_cons.2 ⟨hd, hds⟩
          · exact List.forall_mem_cons.2 ⟨hd, nofun⟩

theorem varDecl_draws (hg : NamedGrammar I n g) (kind : DeclKind) (hend : t.isEof = false) :
    Draws I (· = t) (n + 1) 1 (varDecl g kind) fun d => Named I (ofVarDecl d) := by
  refine .skip hend (.bound fun m hm => .bind (declarators_draws (hg.le hm) (Nat.le_refl m)) fun ds hds => ?_)
  exact .spanFrom fun span => .pure (by rw [ofVarDecl]; exact named_declarators.2 hds)

theorem optionalExpr_draws (hg : NamedGrammar I n g) (close : Punct) :
    Draws I N n 0 (optionalExpr g close) fun e => Named I (ofOption e) := by
  refine .atPunct fun b => ?_
  cases b with
  | true => exact .pure (by simp)
  | false => exact .bind (expression_draws hg).lax fun e he => .pure (by simpa using he)

theorem isEof_of_declKind {kind : DeclKind} (h : declKind? t = some kind) : t.isEof = false := by
  unfold declKind? at h
  split at h
  · exact Draws.isEof_of_isKeyword ‹_›
  · split at h
    · exact Draws.isEof_of_isKeyword ‹_›
    · split at h
      · exact Draws.isEof_of_isKeyword ‹_›
      · cases h

theorem forInit_draws (hg : NamedGrammar I n g) : Draws I N n 0 (forInit g) fun init => Named I (ofForInit init) := by
  refine .peek fun t _ _ => ?_
  split
  · exact .pure (by simp)
  · split
    · rename_i kind hkind
      exact .bind ((varDecl_draws hg kind (isEof_of_declKind hkind)).le (Nat.le_succ n)).lax fun d hd => .pure (by simpa using hd)
    · exact .bind (expression_draws hg).lax fun e he => .pure (by simpa using he)

theorem forStmt_draws (hg : NamedGrammar I n g) (hend : t.isEof = false) :
    Draws I (· = t) (n + 1) 1 (forStmt g) fun s => Named I (ofStmt s) := by
  refine .skip hend (.expectPunct fun _ => .bind (forInit_draws hg) fun init hinit => .peek fun t' _ _ => ?_)
  split
  · exact .fail nofun
  · exact .fail nofun
  · simp only [Bool.false_eq_true, if_false]
    refine .expectPunct fun _ => .bind (optionalExpr_draws hg .semicolon) fun test htest => ?_
    refine .expectPunct fun _ => .bind (optionalExpr_draws hg .closeParen) fun update hupdate => ?_
    refine .expectPunct fun _ => .bind hg.statement.lax fun body hbody => .spanFrom fun span => .pure ?_
    rw [ofStmt, named_cons, named_append, named_append, named_append]
    exact ⟨trivial, hinit, htest, hupdate, hbody⟩

theorem returnStmt_draws (hg : NamedGrammar I n g) (hend : t.isEof = false) :
    Draws I (· = t) (n + 1) 1 (returnStmt g) fun s => Named I (ofStmt s) := by
  refine .skip hend (.peek fun t' _ _ => ?_)
  have hrest : ∀ arg, Named I (ofOption arg) → Draws I AnyToken n 0 (semicolon >>= fun _ => spanFrom t.span >>= fun span =>
      pure (Stmt.return arg span)) fun s => Named I (ofStmt s) := fun arg harg =>
    .bind semicolon_draws fun _ _ => .spanFrom fun span => .pure (by rw [ofStmt, named_cons]; exact ⟨trivial, harg⟩)
  dsimp only
  split
  · rw [pure_bind]
    exact (hrest none (by simp)).any
  · exact .bind (Q := fun arg => Named I (ofOption arg)) (.map ((expression_draws hg).lax.mono fun e he => by simpa using he))
      hrest

theorem wordStmt_draws (hend : t.isEof = false) {stmt : Span → Stmt} (h : ∀ span, Named I (ofStmt (stmt span))) :
    Draws I (· = t) (n + 1) 1 (wordStmt stmt) fun s => Named I (ofStmt s) :=
  .skip hend (.bind semicolon_draws fun _ _ => .spanFrom fun span => .pure (h span))

theorem statement_draws (hg : NamedGrammar I n g) : Draws I N (n + 1) 1 (statement g) fun s => Named I (ofStmt s) := by
  refine .peek fun t _ _ => ?_
  have hplain : Draws I (· = t) (n + 1) 1 (sequence g (assignment g) >>= fun e => semicolon >>= fun _ =>
      spanFrom t.span >>= fun span => pure (Stmt.expr e span)) fun s => Named I (ofStmt s) := by
    refine .first (sequence_draws hg (assignment_draws hg) (Nat.le_refl _)) fun e he => ?_
    exact .bind semicolon_draws fun _ _ => .spanFrom fun span => .pure (by simpa using he)
  have hdeclare : ∀ kind, t.isEof = false → Draws I (· = t) (n + 1) 1 (varDecl g kind >>= fun d => semicolon >>= fun _ =>
      spanFrom t.span >>= fun span => pure (Stmt.declare d span)) fun s => Named I (ofStmt s) := by
    intro kind hend
    refine .first (varDecl_draws hg kind hend) fun d hd => ?_
    exact .bind semicolon_draws fun _ _ => .spanFrom fun span => .pure (by simpa using hd)
  split
  · exact .first (block_draws hg) fun b hb => .pure (by simpa using hb)
  · rename_i hkind
    exact .skip (isEof_of_kind hkind rfl) (.pure (by simp))
  · rename_i hkind
    exact hdeclare _ (isEof_of_kind hkind rfl)
  · rename_i hkind
    exact hdeclare _ (isEof_of_kind hkind rfl)
  · rename_i hkind
    exact hdeclare _ (isEof_of_kind hkind rfl)
  · rename_i hkind
    refine .skip (isEof_of_kind hkind rfl) (.bind (parenthesised_draws hg) fun test htest => ?_)
    refine .bind hg.statement.lax fun yes hyes => .eatKeyword ?_ (.spanFrom fun span => .pure (by simp [htest, hyes]))
    refine .bind (Q := fun no => ∃ s, no = some s ∧ Named I (ofStmt s))
      (.map (hg.statement.lax.mono fun s hs => ⟨s, rfl, hs⟩)) ?_
    rintro _ ⟨no, rfl, hno⟩
    exact .spanFrom fun span => .pure (by simp [htest, hyes, hno])
  · rename_i hkind
    refine .skip (isEof_of_kind hkind rfl) (.bind (parenthesised_draws hg) fun test htest => ?_)
    exact .bind hg.statement.lax fun body hbody => .spanFrom fun span => .pure (by simp [htest, hbody])
  · rename_i hkind
    refine .skip (isEof_of_kind hkind rfl) (.bind hg.statement.lax fun body hbody => .eatKeyword ?_ .unexpected)
    refine .bind (parenthesised_draws hg) fun test htest => ?_
    have hdone : ∀ {N}, Draws I N n 0 (spanFrom t.span >>= fun span => pure (Stmt.doWhile body test span)) fun s =>
        Named I (ofStmt s) := .spanFrom fun span => .pure (by simp [hbody, htest])
    exact .eatPunct hdone hdone
  · rename_i hkind
    exact forStmt_draws hg (isEof_of_kind hkind rfl)
  · rename_i hkind
    exact returnStmt_draws hg (isEof_of_kind hkind rfl)
  · rename_i hkind
    exact wordStmt_draws (isEof_of_kind hkind rfl) fun _ => by simp
  · rename_i hkind
    exact wordStmt_draws (isEof_of_kind hkind rfl) fun _ => by simp
  · rename_i hkind
    exact wordStmt_draws (isEof_of_kind hkind rfl) fun _ => by simp
  · rename_i hkind
    refine .peekNth fun next => ?_
    split
    · exact hplain
    · exact .first (functionDef_draws hg (isEof_of_kind hkind rfl)) fun fn hfn => .pure (by simpa using hfn)
  · exact hplain

/-! ## The grammar -/

theorem grammar_named (D : Nat) : NamedGrammar I D (grammar D) := by
  induction D with
  | zero => exact ⟨.zero, fun _ => .zero, .zero, .zero, .zero⟩
  | succ D ih =>
      exact ⟨assignment_draws ih, binary_draws ih, unary_draws ih, statement_draws ih, bindingTarget_draws ih⟩

/-- What is read from a source, and the faults of reading. -/
theorem run_named (source : Source) (offset : Nat) :
    Textual (run (.ofSource source offset) offset) ∧ ∀ e state, run (.ofSource source offset) offset = .ok (e, state) →
      Named source.Holds (ofExpr e) := by
  have hgrammar := grammar_named (I := source.Holds) ((Stream.ofSource source offset).length + 1)
  obtain ⟨htextual, hresult⟩ := sequence_draws hgrammar (assignment_draws hgrammar) (Nat.le_refl _)
    ⟨.ofSource source offset, offset⟩ (Stream.ofSource_names source offset) (Nat.lt_succ_of_lt (Nat.lt_succ_self _))
    fun _ _ => trivial
  exact ⟨htextual, fun e state hrun => (hresult e state hrun).2.2⟩

/-- Every name of a tree that is read from a source is the text of its span. -/
theorem exprAt_named {source : Source} {offset : Nat} {parsed : Parsed} (h : source.exprAt offset = .ok parsed) :
    Named source.Holds parsed.expr.nodes := by
  unfold Source.exprAt at h
  split at h
  · rename_i e state hrun
    cases h
    exact (run_named source offset).2 e state hrun
  · cases h

/-- Reading an expression fails only with a fault of the text. -/
theorem exprAt_error {source : Source} {offset : Nat} {d : Diagnostic} (h : source.exprAt offset = .error d) :
    d.code = .expressionSyntax := by
  unfold Source.exprAt at h
  split at h
  · cases h
  · rename_i fault hrun
    cases h
    have hcause := (run_named source offset).1 fault hrun
    unfold SyntaxFault.toDiagnostic
    split
    · contradiction
    · rfl

end FieldScript.Parse
