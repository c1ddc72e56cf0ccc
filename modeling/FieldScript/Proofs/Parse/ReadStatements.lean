import FieldScript.Proofs.Parse.ReadBindings

/-!
# Reading back statements

Statements are told apart by their first token. The bodies of branches and loops are blocks, so that the only
statement that minds what follows is a branch without an `else`.
-/

namespace FieldScript.Parse

open Token (Kind Lexeme Spells Stream Piece)
open Token.Piece (lexemes)
open Layout (commas)

variable {ls ls' : List Lexeme} {P : Kind → Bool}

/-- A statement that is read back unless an `else` follows. -/
structure StmtReadsBack (s : Stmt) : Prop where
  starts : Starts (fun k => !k.isMark .closeBrace && !k.isWord .elseWord && !(k matches .eof)) (Layout.statement s)
  reads : ∀ D, (lexemes (Layout.statement s)).length ≤ D + 1 →
    Reads (statement (grammar D)) (lexemes (Layout.statement s)) (fun k => !k.isWord .elseWord) fun s' => s'.bare = s.bare

theorem StmtReadsBack.inner {s : Stmt} (h : StmtReadsBack s) {D : Nat}
    (hD : (lexemes (Layout.statement s)).length ≤ D) :
    Reads (grammar D).statement (lexemes (Layout.statement s)) (fun k => !k.isWord .elseWord) fun s' => s'.bare = s.bare := by
  obtain ⟨D, rfl⟩ := exists_depth h.starts.ne_nil hD
  exact h.reads D hD

/-- An expression that may be left out, read back if it is there. -/
def OptionReadsBack : Option Expr → Prop
  | none => True
  | some e => ReadsBack e ∧ Starts startsExpr (Layout.expr e)

/-! ## Blocks -/

theorem lexemes_spaced_cons (ps : List Piece) (pss : List (List Piece)) :
    lexemes (Layout.spaced (ps :: pss)) = lexemes ps ++ lexemes (Layout.spaced pss) := by
  cases pss with
  | nil => simp [Layout.spaced]
  | cons qs pss => simp [Layout.spaced]

theorem statements_reads {ss : List Stmt} (h : ∀ s ∈ ss, StmtReadsBack s) {D : Nat}
    (hD : (lexemes (Layout.spaced (ss.map Layout.statement))).length ≤ D) (n : Nat)
    (hn : (lexemes (Layout.spaced (ss.map Layout.statement))).length < n) :
    Reads (statements (grammar D) n) (lexemes (Layout.spaced (ss.map Layout.statement))) (·.isMark .closeBrace) fun ss' =>
      bareStmts ss' = bareStmts ss := by
  induction ss generalizing n with
  | nil =>
      obtain ⟨n, rfl⟩ : ∃ m, n = m + 1 := ⟨n - 1, by omega⟩
      refine .peekStop (N := (·.isMark .closeBrace)) (fun k hk => hk) fun t ht => ?_
      rw [Token.isPunct_eq, if_pos ht]
      exact .pure rfl
  | cons s ss ih =>
      obtain ⟨n, rfl⟩ : ∃ m, n = m + 1 := ⟨n - 1, by omega⟩
      have hs := h s List.mem_cons_self
      have hmore := ih fun s' hs' => h s' (List.mem_cons_of_mem s hs')
      have hpos := List.length_pos_iff.2 hs.starts.ne_nil
      rw [List.map_cons, lexemes_spaced_cons] at hD hn ⊢
      rw [List.length_append] at hD hn
      refine .peekStop (begins_append (P := fun _ => true) hs.starts.begins hs.starts.ne_nil) fun t ht => ?_
      simp only [Bool.and_eq_true, Bool.not_eq_true'] at ht
      have hbrace : t.isPunct .closeBrace = false := ht.1.1
      have heof : t.isEof = false := ht.2
      simp only [hbrace, heof, Bool.false_eq_true, if_false]
      have hbegins : Begins (fun k => !k.isWord .elseWord) (·.isMark .closeBrace)
          (lexemes (Layout.spaced (ss.map Layout.statement))) := by
        cases ss with
        | nil =>
            intro k hk
            rw [Kind.eq_of_isMark hk]
            rfl
        | cons s' ss =>
            rw [List.map_cons, lexemes_spaced_cons]
            have hs' : Starts (fun k => !k.isWord .elseWord) (Layout.statement s') :=
              (h s' (by simp)).starts.mono fun k hk => by
                simp only [Bool.and_eq_true] at hk
                exact hk.1.2
            exact begins_append (P := fun _ => true) hs'.begins hs'.ne_nil
      refine .bind (hs.inner (by omega)) hbegins fun s' hs' => ?_
      exact .bind_pure (hmore (by omega) n (by omega)) fun ss' hss' => .pure (by rw [bareStmts, bareStmts, hs', hss'])

theorem lexemes_block (ss : List Stmt) (span : Span) :
    lexemes (Layout.block (.mk ss span)) =
      Lexeme.mark .openBrace :: (lexemes (Layout.spaced (ss.map Layout.statement)) ++ [Lexeme.mark .closeBrace]) := by
  simp [Layout.block, Layout.statements_eq]

theorem braces_readsBack {ss : List Stmt} (span : Span) (h : ∀ s ∈ ss, StmtReadsBack s) : BlockReadsBack (.mk ss span) := by
  intro D hD
  rw [lexemes_block] at hD ⊢
  simp only [List.length_cons, List.length_append, List.length_nil] at hD
  refine .expectPunct fun _ => .bound fun n hn => ?_
  rw [List.length_append] at hn
  refine .bind (statements_reads h (by omega) n (by omega)) rfl fun ss' hss' => .expectPunct fun _ => .pure ?_
  rw [Block.bare, Block.bare, hss']

/-- A block as a statement of its own. -/
theorem BlockReadsBack.statement {b : Block} (h : BlockReadsBack b) {D : Nat}
    (hD : (lexemes (Layout.block b)).length ≤ D + 1) :
    Reads (statement (grammar D)) (lexemes (Layout.block b)) (fun _ => true) fun s => s.bare = (Stmt.block b).bare := by
  have hblock := h D hD
  obtain ⟨ss, span⟩ := b
  rw [lexemes_block] at hblock ⊢
  refine .peek fun t kind _ _ => ?_
  simp only [show t.kind = .punct .openBrace from kind]
  exact .bind_pure hblock fun b hb => .pure (by rw [Stmt.bare, Stmt.bare, hb])

/-- A block as the body of a branch or loop. -/
theorem BlockReadsBack.inner {b : Block} (h : BlockReadsBack b) {D : Nat}
    (hD : (lexemes (Layout.block b)).length ≤ D) :
    Reads (grammar D).statement (lexemes (Layout.block b)) (fun _ => true) fun s => s.bare = (Stmt.block b).bare := by
  obtain ⟨D, rfl⟩ := exists_depth (by cases b; rw [lexemes_block]; exact List.cons_ne_nil _ _) hD
  exact h.statement hD

theorem block_stmtReadsBack {b : Block} (h : BlockReadsBack b) : StmtReadsBack (.block b) := by
  refine ⟨?_, fun D hD => (h.statement hD).stop fun _ _ => rfl⟩
  obtain ⟨ss, span⟩ := b
  exact ⟨_, _, lexemes_block ss span, rfl⟩

/-! ## Statements without bodies -/

theorem expr_stmtReadsBack {e : Expr} (span : Span) (h : ReadsBack e) (hstarts : Starts startsExpr (Layout.expr e)) :
    StmtReadsBack (.expr e span) := by
  refine ⟨?_, fun D hD => ?_⟩
  · refine (hstarts.mono fun k hk => ?_).append _
    unfold startsExpr at hk
    split at hk <;> first | rfl | cases hk
  · rw [Layout.lexemes_exprStatement] at hD ⊢
    rw [List.length_append] at hD
    refine .peekStop (begins_append (P := fun _ => true) hstarts.begins hstarts.ne_nil) fun t ht => ?_
    have hplain : Reads (sequence (grammar D) (assignment (grammar D)) >>= fun e => semicolon >>= fun _ =>
        spanFrom t.span >>= fun span => pure (Stmt.expr e span)) (lexemes (Layout.expr e) ++ [Lexeme.mark .semicolon])
        (fun k => !k.isWord .elseWord) fun s => s.bare = (Stmt.expr e span).bare := by
      refine .bind (sequence_reads (h.assignable.reads D (by omega))) rfl fun e' he' => ?_
      refine .bind_pure semicolon_reads fun _ _ => .spanFrom fun _ => .pure ?_
      rw [Stmt.bare, Stmt.bare, he']
    generalize t.kind = k at ht
    unfold startsExpr at ht
    split at ht <;> first | exact hplain | cases ht

/-- A statement that is a word. -/
theorem wordStmt_reads {stmt : Span → Stmt} {s : Stmt} {name : String} (h : ∀ span, (stmt span).bare = s.bare) :
    Reads (wordStmt stmt) [.word name, .mark .semicolon] P fun s' => s'.bare = s.bare :=
  .advance fun _ _ _ _ => .bind_pure semicolon_reads fun _ _ => .spanFrom fun span => .pure (h span)

theorem break_stmtReadsBack (span : Span) : StmtReadsBack (.break span) := by
  refine ⟨⟨_, _, rfl, rfl⟩, fun D _ => .peek fun t kind _ _ => ?_⟩
  simp only [show t.kind = .keyword .breakWord from kind]
  exact wordStmt_reads fun _ => rfl

theorem continue_stmtReadsBack (span : Span) : StmtReadsBack (.continue span) := by
  refine ⟨⟨_, _, rfl, rfl⟩, fun D _ => .peek fun t kind _ _ => ?_⟩
  simp only [show t.kind = .keyword .continueWord from kind]
  exact wordStmt_reads fun _ => rfl

theorem debugger_stmtReadsBack (span : Span) : StmtReadsBack (.debugger span) := by
  refine ⟨⟨_, _, rfl, rfl⟩, fun D _ => .peek fun t kind _ _ => ?_⟩
  simp only [show t.kind = .keyword .debuggerWord from kind]
  exact wordStmt_reads fun _ => rfl

theorem empty_stmtReadsBack (span : Span) : StmtReadsBack (.empty span) := by
  refine ⟨⟨_, _, rfl, rfl⟩, fun D _ => .peek fun t kind _ _ => ?_⟩
  simp only [show t.kind = .punct .semicolon from kind]
  exact .advance fun _ _ _ _ => .pure rfl

/-- The token behind a `return` that comes with a value. -/
theorem startsExpr_value {t : Token} (h : startsExpr t.kind = true) (hline : t.newlineBefore = false) :
    (t.isPunct .semicolon || t.isPunct .closeBrace || t.isEof || t.newlineBefore) = false := by
  have hmark : ∀ mark, mark ≠ .openParen → mark ≠ .openBracket → t.isPunct mark = false :=
    fun mark hparen hbracket => beq_iff_eq.1 (isMark_of_startsExpr mark hparen hbracket h)
  have heof : t.isEof = false := by
    unfold Token.isEof
    generalize t.kind = k at h
    cases k <;> first | rfl | cases h
  simp [hmark .semicolon, hmark .closeBrace, heof, hline]

theorem return_stmtReadsBack {arg : Option Expr} (span : Span) (h : OptionReadsBack arg) :
    StmtReadsBack (.return arg span) := by
  refine ⟨by cases arg <;> exact ⟨_, _, rfl, rfl⟩, fun D hD => ?_⟩
  cases arg with
  | none =>
      refine .peek (l := .word "return") fun t kind _ _ => ?_
      simp only [show t.kind = .keyword .returnWord from kind]
      refine .advance fun start _ _ _ => .peek (l := .mark .semicolon) fun next kind' _ _ => ?_
      simp only [Token.isPunct_eq, show next.kind = .punct .semicolon from kind', Kind.isMark_punct, beq_self_eq_true,
        Bool.true_or, if_true, pure_bind]
      exact .bind_pure semicolon_reads fun _ _ => .spanFrom fun _ => .pure rfl
  | some e =>
      have hlay : lexemes (Layout.statement (.return (some e) span)) =
          Lexeme.word "return" :: (lexemes (Layout.expr e) ++ [Lexeme.mark .semicolon]) := by
        simp [Layout.statement]
      rw [hlay] at hD ⊢
      simp only [List.length_cons, List.length_append] at hD
      have hvalue := h.1.assignable.expression (D := D) (by omega)
      obtain ⟨l, ls, hls, hl⟩ := h.2
      rw [hls] at hvalue ⊢
      refine .peek fun t kind _ _ => ?_
      simp only [show t.kind = .keyword .returnWord from kind]
      refine .advance fun start _ _ _ => .peek fun next kind' _ line' => ?_
      have hbare := startsExpr_value (t := next) (by rwa [kind']) line'
      simp only [hbare, Bool.false_eq_true, if_false]
      refine .bind (.map (R := fun arg => bareOption arg = some e.bare) (hvalue.mono fun e' he' => ?_)) rfl
        fun arg harg => ?_
      · rw [bareOption, he']
      · refine .bind_pure semicolon_reads fun _ _ => .spanFrom fun _ => .pure ?_
        rw [Stmt.bare, Stmt.bare, harg, bareOption]

/-! ## Declarations -/

/-- A declarator that is read back. -/
def DeclaratorReadsBack : Declarator → Prop
  | .mk p init _ => Binds p ∧ OptionReadsBack init

theorem declarator_reads {d : Declarator} (h : DeclaratorReadsBack d) {D : Nat}
    (hD : (lexemes (Layout.declarator d)).length ≤ D) :
    Reads (declarator (grammar D)) (lexemes (Layout.declarator d)) (endsItem .semicolon) fun d' =>
      bareDeclarators [d'] = bareDeclarators [d] := by
  obtain ⟨p, init, span⟩ := d
  cases init with
  | none =>
      have hlay : lexemes (Layout.declarator (.mk p none span)) = lexemes (Layout.pattern p) := by
        simp [Layout.declarator, Layout.initial]
      rw [hlay] at hD ⊢
      refine .bind_pure ((h.1.inner hD).stop fun _ _ => rfl) fun p' hp' => ?_
      refine .eatPunct_not (fun k => isMark_of_endsItem rfl (by decide) rfl) ?_
      exact .spanFrom fun _ => .pure (by simp [hp'])
  | some e =>
      have hlay : lexemes (Layout.declarator (.mk p (some e) span)) =
          lexemes (Layout.pattern p) ++ (Lexeme.mark .assign :: lexemes (Layout.expr e)) := by
        simp [Layout.declarator, Layout.initial]
      rw [hlay] at hD ⊢
      rw [List.length_append, List.length_cons] at hD
      refine .bind (h.1.inner (by omega)) rfl fun p' hp' => .eatPunct ?_
      have hvalue : Reads (grammar D).assignment (lexemes (Layout.expr e)) (endsItem .semicolon) fun e' => e'.bare = e.bare :=
        (h.2.1.assignable.inner (by omega)).stop fun _ => stopsAssignment_of_endsItem rfl
      refine .bind_pure (.map (R := fun init => bareOption init = some e.bare) (hvalue.mono fun e' he' => ?_)) fun init hinit => ?_
      · rw [bareOption, he']
      · exact .spanFrom fun _ => .pure (by simp [hp', hinit])

theorem bareDeclarators_cons (d : Declarator) (ds : List Declarator) :
    bareDeclarators (d :: ds) = bareDeclarators [d] ++ bareDeclarators ds := by
  cases d
  rfl

theorem declarators_reads {ds : List Declarator} (hne : ds ≠ []) (h : ∀ d ∈ ds, DeclaratorReadsBack d) {D : Nat}
    (hD : (lexemes (commas (ds.map Layout.declarator))).length ≤ D) (n : Nat)
    (hn : (lexemes (commas (ds.map Layout.declarator))).length < n) :
    Reads (declarators (grammar D) n) (lexemes (commas (ds.map Layout.declarator))) (·.isMark .semicolon) fun ds' =>
      bareDeclarators ds' = bareDeclarators ds := by
  induction ds generalizing n with
  | nil => exact absurd rfl hne
  | cons d ds ih =>
      obtain ⟨n, rfl⟩ : ∃ m, n = m + 1 := ⟨n - 1, by omega⟩
      have hd := h d List.mem_cons_self
      cases ds with
      | nil =>
          refine .bind_pure ((declarator_reads hd hD).stop fun k hk => by simp [endsItem, hk]) fun d' hd' => ?_
          refine .eatPunct_not (fun k hk => ?_) (.pure hd')
          rw [Kind.eq_of_isMark hk]
          rfl
      | cons d₂ ds =>
          rw [List.map_cons, List.map_cons, lexemes_commas_cons] at hD hn ⊢
          rw [List.length_append, List.length_cons] at hD hn
          refine .bind (declarator_reads hd (by omega)) (by simp [Begins, endsItem, Lexeme.mark]) fun d' hd' => .eatPunct ?_
          have hmore := ih (List.cons_ne_nil d₂ ds) (fun d' hd' => h d' (List.mem_cons_of_mem d hd'))
            (by rw [List.map_cons]; omega) n (by rw [List.map_cons]; omega)
          refine .bind_pure hmore fun ds' hds' => .pure ?_
          rw [bareDeclarators_cons d', bareDeclarators_cons d, hd', hds']

/-- A declaration that is read back. -/
def DeclReadsBack : VarDecl → Prop
  | .mk _ ds _ => ds ≠ [] ∧ ∀ d ∈ ds, DeclaratorReadsBack d

theorem lexemes_varDecl (kind : DeclKind) (ds : List Declarator) (span : Span) :
    lexemes (Layout.varDecl (.mk kind ds span)) = .word kind.text :: lexemes (commas (ds.map Layout.declarator)) := by
  simp [Layout.varDecl, Layout.declarators_eq]

theorem varDecl_reads {kind : DeclKind} {ds : List Declarator} {span : Span} (h : DeclReadsBack (.mk kind ds span)) {D : Nat}
    (hD : (lexemes (Layout.varDecl (.mk kind ds span))).length ≤ D + 1) :
    Reads (varDecl (grammar D) kind) (lexemes (Layout.varDecl (.mk kind ds span))) (·.isMark .semicolon) fun d' =>
      d'.bare = (VarDecl.mk kind ds span).bare := by
  rw [lexemes_varDecl] at hD ⊢
  rw [List.length_cons] at hD
  refine .advance fun start _ _ _ => .bound fun n hn => ?_
  refine .bind_pure (declarators_reads h.1 h.2 (by omega) n hn) fun ds' hds' => .spanFrom fun _ => .pure ?_
  rw [VarDecl.bare, VarDecl.bare, hds']

/-- The word in front of a declaration. -/
theorem declKind?_eq {t : Token} {kind : DeclKind} (h : t.kind = (Lexeme.word kind.text).kind) :
    declKind? t = some kind := by
  unfold declKind?
  rw [Token.isKeyword_eq, Token.isKeyword_eq, Token.isKeyword_eq, h]
  cases kind <;> rfl

theorem declare_stmtReadsBack {d : VarDecl} (span : Span) (h : DeclReadsBack d) : StmtReadsBack (.declare d span) := by
  obtain ⟨kind, ds, dspan⟩ := d
  have hlay : lexemes (Layout.statement (.declare (.mk kind ds dspan) span)) =
      lexemes (Layout.varDecl (.mk kind ds dspan)) ++ [Lexeme.mark .semicolon] := by
    simp [Layout.statement]
  refine ⟨⟨.word kind.text, _, by rw [hlay, lexemes_varDecl]; rfl, by cases kind <;> rfl⟩, fun D hD => ?_⟩
  rw [hlay] at hD ⊢
  rw [List.length_append] at hD
  have hdecl := varDecl_reads h (D := D) (by omega)
  rw [lexemes_varDecl] at hdecl ⊢
  refine .peek fun t hkind _ _ => ?_
  have hword : t.kind = .keyword .constWord ∨ t.kind = .keyword .letWord ∨ t.kind = .keyword .varWord := by
    rw [hkind]
    cases kind with
    | const => exact .inl rfl
    | «let» => exact .inr (.inl rfl)
    | var => exact .inr (.inr rfl)
  have hrest : Reads (varDecl (grammar D) ((declKind? t).getD .const) >>= fun d => semicolon >>= fun _ =>
      spanFrom t.span >>= fun span => pure (Stmt.declare d span))
      (.word kind.text :: lexemes (commas (ds.map Layout.declarator)) ++ [Lexeme.mark .semicolon])
      (fun k => !k.isWord .elseWord) fun s => s.bare = (Stmt.declare (.mk kind ds dspan) span).bare := by
    rw [declKind?_eq hkind]
    refine .bind hdecl rfl fun d' hd' => .bind_pure semicolon_reads fun _ _ => .spanFrom fun _ => .pure ?_
    rw [Stmt.bare, Stmt.bare, hd']
  rcases hword with hword | hword | hword
  all_goals
    simp only [hword]
    exact hrest

/-! ## Branches and loops -/

theorem parenthesised_reads {e : Expr} (h : ReadsBack e) {D : Nat} (hD : (lexemes (Layout.expr e)).length ≤ D) :
    Reads (parenthesised (grammar D)) (.mark .openParen :: (lexemes (Layout.expr e) ++ [Lexeme.mark .closeParen]))
      (fun _ => true) fun e' => e'.bare = e.bare := by
  refine .expectPunct fun _ => .bind (h.assignable.expression hD) rfl fun e' he' => ?_
  exact .expectPunct fun _ => .pure he'

theorem cond_stmtReadsBack {test : Expr} {yes : Block} (span : Span) (htest : ReadsBack test) (hyes : BlockReadsBack yes) :
    StmtReadsBack (.cond test (.block yes) none span) := by
  refine ⟨⟨_, _, rfl, rfl⟩, fun D hD => ?_⟩
  have hlay : lexemes (Layout.statement (.cond test (.block yes) none span)) =
      Lexeme.word "if" :: ((Lexeme.mark .openParen :: (lexemes (Layout.expr test) ++ [Lexeme.mark .closeParen])) ++
        lexemes (Layout.block yes)) := by
    simp [Layout.statement]
  rw [hlay] at hD ⊢
  simp only [List.length_cons, List.length_append] at hD
  refine .peek fun t kind _ _ => ?_
  simp only [show t.kind = .keyword .ifWord from kind]
  refine .advance fun _ _ _ _ => .bind (parenthesised_reads htest (by omega)) begins_any fun test' htest' => ?_
  refine .bind_pure ((hyes.inner (by omega)).stop fun _ _ => rfl) fun yes' hyes' => ?_
  refine .eatKeyword_not (fun k hk => by simpa using hk) (.spanFrom fun _ => .pure ?_)
  rw [Stmt.bare, Stmt.bare, htest', hyes']

theorem condElse_stmtReadsBack {test : Expr} {yes no : Block} (span : Span) (htest : ReadsBack test)
    (hyes : BlockReadsBack yes) (hno : BlockReadsBack no) :
    StmtReadsBack (.cond test (.block yes) (some (.block no)) span) := by
  refine ⟨⟨_, _, rfl, rfl⟩, fun D hD => ?_⟩
  have hlay : lexemes (Layout.statement (.cond test (.block yes) (some (.block no)) span)) =
      Lexeme.word "if" :: ((Lexeme.mark .openParen :: (lexemes (Layout.expr test) ++ [Lexeme.mark .closeParen])) ++
        (lexemes (Layout.block yes) ++ (Lexeme.word "else" :: lexemes (Layout.block no)))) := by
    simp [Layout.statement]
  rw [hlay] at hD ⊢
  simp only [List.length_cons, List.length_append] at hD
  refine .peek fun t kind _ _ => ?_
  simp only [show t.kind = .keyword .ifWord from kind]
  refine .advance fun _ _ _ _ => .bind (parenthesised_reads htest (by omega)) begins_any fun test' htest' => ?_
  refine .bind (hyes.inner (by omega)) begins_any fun yes' hyes' => .eatKeyword ?_
  refine .bind_pure (.map (R := fun no' => ∃ s, no' = some s ∧ s.bare = (Stmt.block no).bare) ?_) ?_
  · exact ((hno.inner (by omega)).stop fun _ _ => rfl).mono fun s hs => ⟨s, rfl, hs⟩
  · rintro _ ⟨no', rfl, hno'⟩
    refine .spanFrom fun _ => .pure ?_
    rw [Stmt.bare, Stmt.bare, htest', hyes', hno']

theorem while_stmtReadsBack {test : Expr} {body : Block} (span : Span) (htest : ReadsBack test)
    (hbody : BlockReadsBack body) : StmtReadsBack (.while test (.block body) span) := by
  refine ⟨⟨_, _, rfl, rfl⟩, fun D hD => ?_⟩
  have hlay : lexemes (Layout.statement (.while test (.block body) span)) =
      Lexeme.word "while" :: ((Lexeme.mark .openParen :: (lexemes (Layout.expr test) ++ [Lexeme.mark .closeParen])) ++
        lexemes (Layout.block body)) := by
    simp [Layout.statement]
  rw [hlay] at hD ⊢
  simp only [List.length_cons, List.length_append] at hD
  refine .peek fun t kind _ _ => ?_
  simp only [show t.kind = .keyword .whileWord from kind]
  refine .advance fun _ _ _ _ => .bind (parenthesised_reads htest (by omega)) begins_any fun test' htest' => ?_
  refine .bind_pure ((hbody.inner (by omega)).stop fun _ _ => rfl) fun body' hbody' => .spanFrom fun _ => .pure ?_
  rw [Stmt.bare, Stmt.bare, htest', hbody']

theorem doWhile_stmtReadsBack {test : Expr} {body : Block} (span : Span) (htest : ReadsBack test)
    (hbody : BlockReadsBack body) : StmtReadsBack (.doWhile (.block body) test span) := by
  refine ⟨⟨_, _, rfl, rfl⟩, fun D hD => ?_⟩
  have hlay : lexemes (Layout.statement (.doWhile (.block body) test span)) =
      Lexeme.word "do" :: (lexemes (Layout.block body) ++ (Lexeme.word "while" ::
        ((Lexeme.mark .openParen :: (lexemes (Layout.expr test) ++ [Lexeme.mark .closeParen])) ++
          [Lexeme.mark .semicolon]))) := by
    simp [Layout.statement]
  rw [hlay] at hD ⊢
  simp only [List.length_cons, List.length_append] at hD
  refine .peek fun t kind _ _ => ?_
  simp only [show t.kind = .keyword .doWord from kind]
  refine .advance fun _ _ _ _ => .bind (hbody.inner (by omega)) begins_any fun body' hbody' => .eatKeyword ?_
  refine .bind (parenthesised_reads htest (by omega)) begins_any fun test' htest' => .eatPunct (.spanFrom fun _ => .pure ?_)
  rw [Stmt.bare, Stmt.bare, htest', hbody']

/-- The first clause of a `for` statement that is read back. -/
def ForInitReadsBack : ForInit → Prop
  | .absent => True
  | .declare d => DeclReadsBack d
  | .expr e => ReadsBack e ∧ Starts startsExpr (Layout.expr e)

theorem optionalExpr_reads {close : Punct} (hclose : isListEnd close = true) {e : Option Expr} (h : OptionReadsBack e) {D : Nat}
    (hD : (lexemes (Layout.optional e)).length ≤ D) :
    Reads (optionalExpr (grammar D) close) (lexemes (Layout.optional e)) (·.isMark close) fun e' =>
      bareOption e' = bareOption e := by
  cases e with
  | none => exact .atPunct (b := true) (fun k hk => by simpa using hk) (.pure rfl)
  | some e =>
      have hstarts := h.2.mono fun _ => isMark_of_startsExpr close (by rintro rfl; cases hclose)
        (by rintro rfl; cases hclose)
      refine .atPunct (b := false) hstarts.begins (.bind_pure ((h.1.assignable.expression hD).stop fun k hk => ?_)
        fun e' he' => .pure (by rw [bareOption, bareOption, he']))
      rw [Kind.eq_of_isMark hk]
      cases close <;> first | rfl | cases hclose

theorem forInit_reads {init : ForInit} (h : ForInitReadsBack init) {D : Nat}
    (hD : (lexemes (Layout.forInit init)).length ≤ D) :
    Reads (forInit (grammar D)) (lexemes (Layout.forInit init)) (·.isMark .semicolon) fun init' => init'.bare = init.bare := by
  cases init with
  | absent =>
      refine .peekStop (N := (·.isMark .semicolon)) (fun k hk => hk) fun t ht => ?_
      rw [Token.isPunct_eq, if_pos ht]
      exact .pure rfl
  | declare d =>
      obtain ⟨kind, ds, span⟩ := d
      have hdecl : Reads (varDecl (grammar D) kind) (lexemes (Layout.varDecl (.mk kind ds span))) (·.isMark .semicolon) fun d' =>
          d'.bare = (VarDecl.mk kind ds span).bare := varDecl_reads h (Nat.le_succ_of_le hD)
      rw [Layout.forInit]
      rw [lexemes_varDecl] at hdecl ⊢
      refine .peek fun t hkind _ _ => ?_
      have hmark : t.isPunct .semicolon = false := by
        rw [Token.isPunct_eq, hkind]
        exact isMark_wordKind _ _
      simp only [hmark, Bool.false_eq_true, if_false, declKind?_eq hkind]
      exact .bind_pure hdecl fun d' hd' => .pure (by rw [ForInit.bare, ForInit.bare, hd'])
  | expr e =>
      refine .peekStop h.2.begins fun t ht => ?_
      have hmark : t.isPunct .semicolon = false := beq_iff_eq.1 (isMark_of_startsExpr .semicolon (by decide) (by decide) ht)
      have hkeyword : ∀ word, startsExpr (.keyword word) = false → t.isKeyword word = false := by
        intro word hstart
        rw [Token.isKeyword_eq]
        unfold Kind.isWord
        split
        · rename_i w hw
          rw [hw] at ht
          rw [beq_eq_false_iff_ne]
          rintro rfl
          exact absurd ht (by simp [hstart])
        · rfl
      have hword : declKind? t = none := by
        simp [declKind?, hkeyword .constWord rfl, hkeyword .letWord rfl, hkeyword .varWord rfl]
      simp only [hmark, Bool.false_eq_true, if_false, hword]
      refine .bind_pure ((h.1.assignable.expression hD).stop fun k hk => ?_) fun e' he' =>
        .pure (by rw [ForInit.bare, ForInit.bare, he'])
      rw [Kind.eq_of_isMark hk]
      rfl

theorem for_stmtReadsBack {init : ForInit} {test update : Option Expr} {body : Block} (span : Span)
    (hinit : ForInitReadsBack init) (htest : OptionReadsBack test) (hupdate : OptionReadsBack update)
    (hbody : BlockReadsBack body) : StmtReadsBack (.for init test update (.block body) span) := by
  refine ⟨⟨_, _, rfl, rfl⟩, fun D hD => ?_⟩
  have hlay : lexemes (Layout.statement (.for init test update (.block body) span)) =
      Lexeme.word "for" :: .mark .openParen :: (lexemes (Layout.forInit init) ++ (Lexeme.mark .semicolon ::
        (lexemes (Layout.optional test) ++ (Lexeme.mark .semicolon :: (lexemes (Layout.optional update) ++
          (Lexeme.mark .closeParen :: lexemes (Layout.block body))))))) := by
    simp [Layout.statement]
  rw [hlay] at hD ⊢
  simp only [List.length_cons, List.length_append] at hD
  refine .peek fun t kind _ _ => ?_
  simp only [show t.kind = .keyword .forWord from kind]
  refine .advance fun _ _ _ _ => .expectPunct fun _ => .bind (forInit_reads hinit (by omega)) rfl fun init' hinit' => ?_
  refine .peek fun t' kind' _ _ => ?_
  simp only [show t'.kind = .punct .semicolon from kind', Bool.false_eq_true, if_false]
  refine .expectPunct fun _ => .bind (optionalExpr_reads rfl htest (by omega)) rfl fun test' htest' => ?_
  refine .expectPunct fun _ => .bind (optionalExpr_reads rfl hupdate (by omega)) rfl fun update' hupdate' => ?_
  refine .expectPunct fun _ => .bind_pure ((hbody.inner (by omega)).stop fun _ _ => rfl) fun body' hbody' => ?_
  refine .spanFrom fun _ => .pure ?_
  rw [Stmt.bare, Stmt.bare, hinit', htest', hupdate', hbody']

end FieldScript.Parse
