import FieldScript.Proofs.Parse.SoundParts
import FieldScript.Syntax.Parse

/-!
# Trees that are read are legible

The parsers with operators and those of statements, and from them the grammar at every depth. A source that is one
expression has as many points as its tree has accesses with a point (`expr_sound`).
-/

namespace FieldScript.Parse

open Token (Kind Stream)
open Render (Mode)
open Node

variable {g : Grammar} {N : Token → Prop} {t : Token}

/-! ## Operators -/

theorem isDot_of_updateOp {k : Kind} {op : UpdateOp} (h : updateOp? k = some op) : k.isDot = false := by
  unfold updateOp? at h
  split at h <;> first | rfl | cases h

theorem isDot_of_unaryOp {k : Kind} {op : UnaryOp} (h : unaryOp? k = some op) : k.isDot = false := by
  unfold unaryOp? at h
  split at h <;> first | rfl | cases h

theorem isDot_of_infixOp {k : Kind} {op : InfixOp} (h : infixOp? k = some op) : k.isDot = false := by
  unfold infixOp? at h
  split at h <;> first | rfl | cases h

/-- The mark of an assignment is the mark it is written with. -/
theorem punct?_of_assignOp {k : Kind} {op : AssignOp} (h : assignOp? k = some op) :
    op.punct?.isSome = true ∧ k.isDot = false := by
  unfold assignOp? at h
  split at h <;> first | (cases h; exact ⟨rfl, rfl⟩) | cases h

theorem suffixed_consumes (hg : SoundGrammar g) : Consumes N (suffixed g) SoundExpr := by
  refine .bind (primary_consumes hg) ?_
  rintro e₀ _ ⟨he₀, rfl⟩
  refine .bound fun fuel => .bind (chain_consumes hg he₀ fuel) ?_
  rintro e n ⟨he, hdots⟩
  refine .peek fun t _ _ => ?_
  split
  · rename_i op hop
    split
    · exact .pure ⟨he, by simp [hdots]⟩
    · refine .skip (isDot_of_updateOp hop) (.lift fun p hp => ?_)
      obtain ⟨hsimple, hp, hcount⟩ := toSimpleTarget_sound hp he
      exact .pure ⟨⟨hsimple, hp⟩, by simp [ofExpr, isDotted, hcount, hdots]⟩
  · exact .pure ⟨he, by simp [hdots]⟩

theorem unary_consumes (hg : SoundGrammar g) : Consumes N (unary g) SoundExpr := by
  refine .peek fun t _ _ => ?_
  split
  · rename_i op hop
    refine .skip (isDot_of_unaryOp hop) (.bind hg.unary ?_)
    rintro e _ ⟨he, rfl⟩
    exact .pure ⟨he, by simp [ofExpr, isDotted]⟩
  · split
    · rename_i hword
      refine .skip (Consumes.isDot_of_isKeyword hword) (.bind hg.unary ?_)
      rintro e _ ⟨he, rfl⟩
      exact .pure ⟨he, by simp [ofExpr, isDotted]⟩
    · split
      · rename_i op hop
        refine .skip (isDot_of_updateOp hop) (.bind hg.unary ?_)
        rintro e _ ⟨he, rfl⟩
        refine .lift fun p hp => ?_
        obtain ⟨hsimple, hp, hcount⟩ := toSimpleTarget_sound hp he
        exact .pure ⟨⟨hsimple, hp⟩, by simp [ofExpr, isDotted, hcount]⟩
      · exact suffixed_consumes hg

theorem infixFrom_consumes (hg : SoundGrammar g) (least : Nat) {left : Expr} (hleft : left.Legible false) (fuel : Nat) :
    Consumes N (infixFrom g least left fuel) (SoundBehind left) := by
  induction fuel generalizing N left with
  | zero => exact .exhausted
  | succ fuel ih =>
      refine .peek fun t _ _ => ?_
      split
      · rename_i op hop
        split
        · exact .pure ⟨hleft, rfl⟩
        · refine .skip (isDot_of_infixOp hop) (.bind (hg.binary _) ?_)
          rintro right _ ⟨hright, rfl⟩
          have happly : (op.apply left right).Legible false ∧
              dotted (ofExpr (op.apply left right)) = dotted (ofExpr left) + dotted (ofExpr right) := by
            cases op <;> exact ⟨⟨hleft, hright⟩, by simp [InfixOp.apply, ofExpr, isDotted]⟩
          refine (ih happly.1).mono fun e n he => ⟨he.1, ?_⟩
          rw [he.2, happly.2, Nat.add_assoc]
      · exact .pure ⟨hleft, rfl⟩

theorem binary_consumes (hg : SoundGrammar g) (least : Nat) : Consumes N (binary g least) SoundExpr := by
  refine .bind (unary_consumes hg) ?_
  rintro e _ ⟨he, rfl⟩
  exact .bound fun fuel => infixFrom_consumes hg least he fuel

theorem conditional_consumes (hg : SoundGrammar g) : Consumes N (conditional g) SoundExpr := by
  refine .bind (binary_consumes hg 1) ?_
  rintro test _ ⟨htest, rfl⟩
  refine .eatPunct (by decide) (.bind hg.assignment ?_) (.pure ⟨htest, rfl⟩)
  rintro yes _ ⟨hyes, rfl⟩
  refine .expectPunct (by decide) fun _ => .bind hg.assignment ?_
  rintro no _ ⟨hno, rfl⟩
  exact .pure ⟨⟨htest, hyes, hno⟩, by simp [ofExpr, isDotted]⟩

theorem arrowRest_consumes (hg : SoundGrammar g) (start : Token) (isAsync : Bool) :
    Consumes N (arrowRest g start isAsync) SoundExpr := by
  have hbody : ∀ {k : ArrowBody → Parser Expr} {Q : Expr → Nat → Prop},
      (∀ body, body.Legible false → Consumes AnyToken (k body) fun e n => Q e (dotted (ofArrowBody body) + n)) →
      Consumes AnyToken (atPunct .openBrace >>= fun b => if b = true then ArrowBody.block <$> block g >>= k else
        ArrowBody.expr <$> g.assignment >>= k) Q := by
    intro k Q hk
    refine .atPunct fun b => ?_
    cases b with
    | true =>
        refine .bind (Q := fun body n => body.Legible false ∧ dotted (ofArrowBody body) = n)
          (.map (block_consumes hg)) ?_
        rintro body _ ⟨hbody, rfl⟩
        exact hk body hbody
    | false =>
        refine .bind (Q := fun body n => body.Legible false ∧ dotted (ofArrowBody body) = n)
          (.map hg.assignment.any) ?_
        rintro body _ ⟨hbody, rfl⟩
        exact hk body hbody
  have hrest : ∀ ps, LegiblePatterns false .bind .param ps → Consumes AnyToken (expectPunct .arrow >>= fun _ =>
      atPunct .openBrace >>= fun b => if b = true then ArrowBody.block <$> block g >>= fun body => spanFrom start.span >>=
        fun span => pure (Expr.arrow ps body isAsync span) else ArrowBody.expr <$> g.assignment >>= fun body =>
          spanFrom start.span >>= fun span => pure (Expr.arrow ps body isAsync span))
      fun e n => SoundExpr e (dotted (ofPatterns ps) + n) := by
    intro ps hps
    refine .expectPunct (by decide) fun _ => hbody fun body hbody' => .spanFrom fun span => .pure ?_
    exact ⟨⟨hps, hbody'⟩, by simp [ofExpr, isDotted]⟩
  refine .eatPunct (by decide) (.bind (params_consumes hg) ?_) (.bind bindingName_consumes ?_)
  · rintro ps _ ⟨hps, rfl⟩
    exact hrest ps hps
  · rintro id _ ⟨hname, rfl⟩
    exact (hrest [.ident id] ⟨hname, trivial⟩).mono fun e n he => by simpa [ofPatterns, ofPattern, isDotted] using he

theorem arrow_consumes (hg : SoundGrammar g) : Consumes N (arrow g) SoundExpr := by
  refine .peek fun start _ _ => ?_
  split
  · rename_i hword
    refine .peekNth fun next => ?_
    split
    · exact arrowRest_consumes hg start false
    · exact .skip (Consumes.isDot_of_isKeyword hword) (arrowRest_consumes hg start true)
  · exact arrowRest_consumes hg start false

theorem assigned_consumes (hg : SoundGrammar g) {left : Expr} (hleft : left.Legible false) :
    Consumes N (assigned g left) (SoundBehind left) := by
  refine .peek fun t _ _ => ?_
  split
  · exact .pure ⟨hleft, rfl⟩
  · rename_i op hop
    obtain ⟨hpunct, hdot⟩ := punct?_of_assignOp hop
    have hrest : ∀ p, (op = .assign ∨ p.isSimple = true) → SoundPattern .assign .target p (dotted (ofExpr left)) →
        Consumes (· = t) (advance >>= fun _ => g.assignment >>= fun value =>
          pure (Expr.assign op p value (p.span.merge value.span))) (SoundBehind left) := by
      intro p hsimple hp
      refine .skip hdot (.bind hg.assignment ?_)
      rintro value _ ⟨hvalue, rfl⟩
      exact .pure ⟨⟨hpunct, hsimple, hp.1, hvalue⟩, by simp [ofExpr, isDotted, hp.2]⟩
    split
    · rename_i hassign
      exact .lift fun p hp => hrest p (.inl hassign) (toPattern_sound left hp hleft)
    · refine .lift fun p hp => ?_
      obtain ⟨hsimple, hp⟩ := toSimpleTarget_sound hp hleft
      exact hrest p (.inr hsimple) hp

theorem assignment_consumes (hg : SoundGrammar g) : Consumes N (assignment g) SoundExpr := by
  refine .look (x := get) (by rintro st a st' ⟨⟩; rfl) fun st => .lift fun b _ => ?_
  split
  · exact arrow_consumes hg
  · refine .bind (conditional_consumes hg) ?_
    rintro left _ ⟨hleft, rfl⟩
    exact assigned_consumes hg hleft

/-! ## Statements -/

theorem parenthesised_consumes (hg : SoundGrammar g) : Consumes N (parenthesised g) SoundExpr := by
  refine .expectPunct (by decide) fun _ => .bind (expression_consumes hg) ?_
  rintro e _ ⟨he, rfl⟩
  exact .expectPunct (by decide) fun _ => .pure ⟨he, rfl⟩

def SoundDeclarators (ds : List Declarator) (n : Nat) : Prop := LegibleDeclarators false ds ∧ dotted (ofDeclarators ds) = n

theorem declarator_consumes (hg : SoundGrammar g) : Consumes N (declarator g) fun d n => SoundDeclarators [d] n := by
  refine .bind hg.bindingTarget.any ?_
  rintro p _ ⟨hp, rfl⟩
  refine .eatPunct (by decide) ?_ ?_
  · refine .bind (Q := fun init n => LegibleOption false init ∧ dotted (ofOption init) = n) (.map hg.assignment) ?_
    rintro init _ ⟨hinit, rfl⟩
    exact .spanFrom fun span => .pure ⟨⟨hp, hinit, trivial⟩, by simp [ofDeclarators]⟩
  · exact .spanFrom fun span => .pure ⟨⟨hp, trivial, trivial⟩, by simp [ofDeclarators, ofOption]⟩

theorem declarators_consumes (hg : SoundGrammar g) (fuel : Nat) :
    Consumes N (declarators g fuel) fun ds n => ds ≠ [] ∧ SoundDeclarators ds n := by
  induction fuel generalizing N with
  | zero => exact .exhausted
  | succ fuel ih =>
      refine .bind (declarator_consumes hg) ?_
      rintro ⟨p, init, span⟩ _ ⟨hd, rfl⟩
      refine .eatPunct (by decide) (.bind (ih (N := AnyToken)) ?_) (.pure ⟨List.cons_ne_nil _ _, hd, rfl⟩)
      rintro ds _ ⟨-, hds, rfl⟩
      exact .pure ⟨List.cons_ne_nil _ _, ⟨hd.1, hd.2.1, hds⟩, by simp [ofDeclarators, Nat.add_assoc]⟩

theorem varDecl_consumes (hg : SoundGrammar g) (kind : DeclKind) (hdot : t.kind.isDot = false) :
    Consumes (· = t) (varDecl g kind) fun d n => d.Legible false ∧ dotted (ofVarDecl d) = n := by
  refine .skip hdot (.bound fun fuel => .bind (declarators_consumes hg fuel) ?_)
  rintro ds _ ⟨hne, hds, rfl⟩
  exact .spanFrom fun span => .pure ⟨⟨hne, hds⟩, by simp [ofVarDecl]⟩

theorem optionalExpr_consumes (hg : SoundGrammar g) (close : Punct) :
    Consumes N (optionalExpr g close) fun e n => LegibleOption false e ∧ dotted (ofOption e) = n := by
  refine .atPunct fun b => ?_
  cases b with
  | true => exact .pure ⟨trivial, rfl⟩
  | false =>
      refine .bind (expression_consumes hg) ?_
      rintro e _ ⟨he, rfl⟩
      exact .pure ⟨he, by simp [ofOption]⟩

theorem isDot_of_declKind {kind : DeclKind} (h : declKind? t = some kind) : t.kind.isDot = false := by
  unfold declKind? at h
  split at h
  · exact Consumes.isDot_of_isKeyword ‹_›
  · split at h
    · exact Consumes.isDot_of_isKeyword ‹_›
    · split at h
      · exact Consumes.isDot_of_isKeyword ‹_›
      · cases h

theorem forInit_consumes (hg : SoundGrammar g) :
    Consumes N (forInit g) fun init n => init.Legible false ∧ dotted (ofForInit init) = n := by
  refine .peek fun t _ _ => ?_
  split
  · exact .pure ⟨trivial, rfl⟩
  · split
    · rename_i kind hkind
      refine .bind (varDecl_consumes hg kind (isDot_of_declKind hkind)) ?_
      rintro d _ ⟨hd, rfl⟩
      exact .pure ⟨hd, by simp [ofForInit]⟩
    · refine .bind (expression_consumes hg) ?_
      rintro e _ ⟨he, rfl⟩
      exact .pure ⟨he, by simp [ofForInit]⟩

theorem forStmt_consumes (hg : SoundGrammar g) (hdot : t.kind.isDot = false) : Consumes (· = t) (forStmt g) SoundStmt := by
  refine .skip hdot (.expectPunct (by decide) fun _ => .bind (forInit_consumes hg) ?_)
  rintro init _ ⟨hinit, rfl⟩
  refine .peek fun t' _ _ => ?_
  split
  · exact .fail
  · exact .fail
  · simp only [Bool.false_eq_true, if_false]
    refine .expectPunct (by decide) fun _ => .bind (optionalExpr_consumes hg .semicolon) ?_
    rintro test _ ⟨htest, rfl⟩
    refine .expectPunct (by decide) fun _ => .bind (optionalExpr_consumes hg .closeParen) ?_
    rintro update _ ⟨hupdate, rfl⟩
    refine .expectPunct (by decide) fun _ => .bind hg.statement ?_
    rintro body _ ⟨hbody, rfl⟩
    exact .spanFrom fun span => .pure ⟨⟨nofun, hinit, htest, hupdate, hbody⟩, by simp [ofStmt, isDotted]⟩

theorem returnStmt_consumes (hg : SoundGrammar g) (hdot : t.kind.isDot = false) :
    Consumes (· = t) (returnStmt g) SoundStmt := by
  refine .skip hdot (.peek fun t' _ _ => ?_)
  dsimp only
  split
  · rw [pure_bind]
    refine .bind semicolon_consumes ?_
    rintro _ _ rfl
    exact .spanFrom fun span => .pure ⟨trivial, rfl⟩
  · refine .bind (Q := fun arg n => LegibleOption false arg ∧ dotted (ofOption arg) = n) (.map (expression_consumes hg)) ?_
    rintro arg _ ⟨harg, rfl⟩
    refine .bind semicolon_consumes ?_
    rintro _ _ rfl
    exact .spanFrom fun span => .pure ⟨harg, by simp [ofStmt, isDotted]⟩

theorem wordStmt_consumes (hdot : t.kind.isDot = false) {stmt : Span → Stmt} (h : ∀ span, SoundStmt (stmt span) 0) :
    Consumes (· = t) (wordStmt stmt) SoundStmt := by
  refine .skip hdot (.bind semicolon_consumes ?_)
  rintro _ _ rfl
  exact .spanFrom fun span => .pure (h span)

theorem statement_consumes (hg : SoundGrammar g) : Consumes N (statement g) SoundStmt := by
  refine .peek fun t _ _ => ?_
  have hplain : Consumes (· = t) (sequence g (assignment g) >>= fun e => semicolon >>= fun _ =>
      spanFrom t.span >>= fun span => pure (Stmt.expr e span)) SoundStmt := by
    refine .bind (sequence_consumes hg (assignment_consumes hg)) ?_
    rintro e _ ⟨he, rfl⟩
    refine .bind semicolon_consumes ?_
    rintro _ _ rfl
    exact .spanFrom fun span => .pure ⟨he, by simp [ofStmt, isDotted]⟩
  have hdeclare : ∀ kind, t.kind.isDot = false → Consumes (· = t) (varDecl g kind >>= fun d => semicolon >>= fun _ =>
      spanFrom t.span >>= fun span => pure (Stmt.declare d span)) SoundStmt := by
    intro kind hdot
    refine .bind (varDecl_consumes hg kind hdot) ?_
    rintro d _ ⟨hd, rfl⟩
    refine .bind semicolon_consumes ?_
    rintro _ _ rfl
    exact .spanFrom fun span => .pure ⟨hd, by simp [ofStmt, isDotted]⟩
  split
  · refine .bind (block_consumes hg) ?_
    rintro b _ ⟨hb, rfl⟩
    exact .pure ⟨hb, by simp [ofStmt, isDotted]⟩
  · rename_i hkind
    exact .skip (by rw [hkind]; rfl) (.pure ⟨trivial, rfl⟩)
  · rename_i hkind
    exact hdeclare _ (by rw [hkind]; rfl)
  · rename_i hkind
    exact hdeclare _ (by rw [hkind]; rfl)
  · rename_i hkind
    exact hdeclare _ (by rw [hkind]; rfl)
  · rename_i hkind
    refine .skip (by rw [hkind]; rfl) (.bind (parenthesised_consumes hg) ?_)
    rintro test _ ⟨htest, rfl⟩
    refine .bind hg.statement ?_
    rintro yes _ ⟨hyes, rfl⟩
    refine .eatKeyword ?_ (.spanFrom fun span => .pure ⟨⟨nofun, htest, hyes⟩, by simp [ofStmt, isDotted]⟩)
    refine .bind (Q := fun no n => ∃ s, no = some s ∧ SoundStmt s n) (.map (hg.statement.mono fun s n hs => ⟨s, rfl, hs⟩)) ?_
    rintro _ _ ⟨no, rfl, hno, rfl⟩
    exact .spanFrom fun span => .pure ⟨⟨nofun, htest, hyes, hno⟩, by simp [ofStmt, isDotted]⟩
  · rename_i hkind
    refine .skip (by rw [hkind]; rfl) (.bind (parenthesised_consumes hg) ?_)
    rintro test _ ⟨htest, rfl⟩
    refine .bind hg.statement ?_
    rintro body _ ⟨hbody, rfl⟩
    exact .spanFrom fun span => .pure ⟨⟨nofun, htest, hbody⟩, by simp [ofStmt, isDotted]⟩
  · rename_i hkind
    refine .skip (by rw [hkind]; rfl) (.bind hg.statement ?_)
    rintro body _ ⟨hbody, rfl⟩
    refine .eatKeyword (.bind (parenthesised_consumes hg) ?_) .unexpected
    rintro test _ ⟨htest, rfl⟩
    have hend : Consumes AnyToken (spanFrom t.span >>= fun span => pure (Stmt.doWhile body test span)) fun s n =>
        SoundStmt s (dotted (ofStmt body) + (dotted (ofExpr test) + n)) :=
      .spanFrom fun span => .pure ⟨⟨nofun, hbody, htest⟩, by simp [ofStmt, isDotted]⟩
    exact .eatPunct (by decide) hend hend.any
  · rename_i hkind
    exact forStmt_consumes hg (by rw [hkind]; rfl)
  · rename_i hkind
    exact returnStmt_consumes hg (by rw [hkind]; rfl)
  · rename_i hkind
    exact wordStmt_consumes (by rw [hkind]; rfl) fun _ => ⟨trivial, rfl⟩
  · rename_i hkind
    exact wordStmt_consumes (by rw [hkind]; rfl) fun _ => ⟨trivial, rfl⟩
  · rename_i hkind
    exact wordStmt_consumes (by rw [hkind]; rfl) fun _ => ⟨trivial, rfl⟩
  · rename_i hkind
    refine .peekNth fun next => ?_
    split
    · exact hplain
    · refine .bind (functionDef_consumes hg (by rw [hkind]; rfl)) ?_
      rintro fn _ rfl
      exact .pure ⟨rfl, by simp [ofStmt, isDotted]⟩
  · exact hplain

/-! ## The grammar -/

theorem grammar_sound (D : Nat) : SoundGrammar (grammar D) := by
  induction D with
  | zero => exact ⟨.exhausted, fun _ => .exhausted, .exhausted, .exhausted, .exhausted⟩
  | succ D ih =>
      exact ⟨assignment_consumes ih, binary_consumes ih, unary_consumes ih, statement_consumes ih, bindingTarget_consumes ih⟩

theorem run_sound {source : Source} {offset : Nat} {e : Expr} {state : State}
    (h : run (.ofSource source offset) offset = .ok (e, state)) :
    ∃ n, Leaves (.ofSource source offset) state.stream n ∧ SoundExpr e n := by
  have hgrammar := grammar_sound ((Stream.ofSource source offset).length + 1)
  exact sequence_consumes hgrammar (assignment_consumes hgrammar) ⟨.ofSource source offset, offset⟩ e state
    (Stream.ofSource_sound source offset) (fun _ _ => trivial) h

/-- What is read from a place in a source is legible. -/
theorem exprAt_legible {source : Source} {offset : Nat} {parsed : Parsed} (h : source.exprAt offset = .ok parsed) :
    parsed.expr.Legible false := by
  unfold Source.exprAt at h
  split at h
  · rename_i e state hrun
    cases h
    obtain ⟨n, -, he⟩ := run_sound hrun
    exact he.1
  · cases h

/-- A source is one expression if the end mark comes behind the one that is read. -/
theorem expr_iff_run {source : Source} {e : Expr} : source.expr = .ok e ↔
    ∃ state t, run (.ofSource source 0) 0 = .ok (e, state) ∧ nth 0 state.stream = .ok t ∧ t.isEof = true := by
  have hexpr : source.expr = Except.mapError (·.toDiagnostic source) (run (.ofSource source 0) 0 >>= fun r =>
      nth 0 r.2.stream >>= fun t => if t.isEof = true then Except.ok r.1 else
        ((unexpected : Parser Expr) r.2 >>= fun r => Except.ok r.1)) := rfl
  rw [hexpr]
  cases hrun : run (.ofSource source 0) 0 with
  | error fault => exact ⟨nofun, nofun⟩
  | ok r =>
      obtain ⟨e', state⟩ := r
      show Except.mapError _ (nth 0 state.stream >>= _) = _ ↔ _
      cases ht : nth 0 state.stream with
      | error fault =>
          refine ⟨nofun, ?_⟩
          rintro ⟨state', t, hstate, ht', -⟩
          cases hstate
          cases ht.symm.trans ht'
      | ok t =>
          show Except.mapError _ (if t.isEof = true then _ else _) = _ ↔ _
          constructor
          · intro h
            by_cases hend : t.isEof = true
            · rw [if_pos hend] at h
              cases h
              exact ⟨state, t, rfl, ht, hend⟩
            · rw [if_neg hend] at h
              cases hlast : (unexpected : Parser Expr) state with
              | error fault =>
                  rw [hlast] at h
                  cases h
              | ok r => exact absurd hlast unexpected_run
          · rintro ⟨state', t', hstate, ht', hend⟩
            cases hstate
            obtain rfl : t' = t := Except.ok.inj (ht'.symm.trans ht)
            rw [if_pos hend]
            rfl

/-- A source that is one expression has no fault. Its tree is legible and has all its points. -/
theorem expr_sound {source : Source} {e : Expr} (h : source.expr = .ok e) :
    (Stream.ofSource source 0).Finished ∧ SoundExpr e (Stream.ofSource source 0).dots := by
  obtain ⟨⟨stream, lastEnd⟩, t, hrun, ht, hend⟩ := expr_iff_run.1 h
  obtain ⟨n, hleaves, he⟩ := run_sound hrun
  cases stream with
  | cons t' rest =>
      -- the token behind the expression would have to be an end mark
      cases ht
      exact absurd hend (by rw [hleaves.sound.2.1]; exact Bool.false_ne_true)
  | done t' => exact ⟨hleaves.finished trivial, he.1, by rw [hleaves.dots, ← he.2]; rfl⟩
  | failed fault => cases ht

end FieldScript.Parse
