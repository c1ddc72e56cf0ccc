import FieldScript.Proofs.Parse.ReadStatements

/-!
# Reading back a whole tree

Every legible tree without functions and with blocks for bodies is read back from its layout (`block_readsBack`), by
induction on the tree. What the parts of a construct have to be is told by the lemma of the construct.
-/

namespace FieldScript.Parse

open Token (Kind Lexeme Piece)
open Token.Piece (lexemes)
open Layout (commas)

variable {m n : Nat}

/-! ## Operators -/

theorem await_readsBack {e : Expr} (span : Span) (h : ReadsBack e) (hnested : Nested (lexemes (Layout.expr e)) n) :
    ReadsBack (.await e span) := by
  have hunary : Unary (.word "await" :: lexemes (Layout.expr e)) fun e' => e'.bare = (Expr.await e span).bare :=
    h.unary.await fun e' _ he' => by rw [Expr.bare, Expr.bare, he']
  refine ⟨hunary, ?_⟩
  rw [Layout.operand, Layout.lexemes_parens]
  exact hunary.assignable.parens (Nested.cons (l := .word "await") rfl hnested)

theorem unary_readsBack (op : UnaryOp) {e : Expr} (span : Span) (h : ReadsBack e)
    (hnested : Nested (lexemes (Layout.expr e)) n) : ReadsBack (.unary op e span) := by
  refine .of_assignable rfl rfl (Layout.unary_nested op hnested) ?_
  have hlay : lexemes (.lexeme op.lexeme :: ((if op.isWord then Layout.blank else []) ++ Layout.expr e)) =
      op.lexeme :: lexemes (Layout.expr e) := by
    cases op.isWord <;> simp
  rw [hlay]
  exact (h.unary.operator op fun e' _ he' => by rw [Expr.bare, Expr.bare, he']).assignable

theorem update_readsBack (op : UpdateOp) (before : Bool) {p : Pattern} (span : Span) (hsimple : p.isSimple = true)
    (h : TargetReadsBack p) (hnested : Nested (lexemes (Layout.pattern p)) n) : ReadsBack (.update op before p span) := by
  refine .of_assignable rfl rfl (Layout.update_nested op before hnested) ?_
  have htarget : Operand (lexemes (Layout.pattern p)) fun e => ∃ p', toSimpleTarget e = .ok p' ∧ p'.bare = p.bare :=
    Operand.mono h fun e he => by
      obtain ⟨p', -, hbare, hconvert⟩ := he
      exact ⟨p', hconvert hsimple, hbare⟩
  have hbare : ∀ p' span', p'.bare = p.bare →
      (Expr.update op before p' span').bare = (Expr.update op before p span).bare := by
    intro p' span' hp'
    rw [Expr.bare, Expr.bare, hp']
  cases before with
  | true =>
      have hlay : lexemes ((if true then [Piece.lexeme op.lexeme] else []) ++ (Layout.pattern p ++
          (if true then [] else [Piece.lexeme op.lexeme]))) = op.lexeme :: lexemes (Layout.pattern p) := by simp
      rw [hlay]
      exact (htarget.unary.step op hbare).assignable
  | false =>
      have hlay : lexemes ((if false then [Piece.lexeme op.lexeme] else []) ++ (Layout.pattern p ++
          (if false then [] else [Piece.lexeme op.lexeme]))) = lexemes (Layout.pattern p) ++ [op.lexeme] := by simp
      rw [hlay]
      exact (htarget.steps op hbare).assignable

theorem infix_readsBack {e l r : Expr} {lexeme : Lexeme} (op : InfixOp)
    (hlay : Layout.expr e = Layout.parens (Layout.expr l ++ (Layout.blank ++ (.lexeme lexeme :: (Layout.blank ++
      Layout.expr r)))))
    (hawait : Layout.operand e (Layout.expr e) = Layout.expr e) (hop : infixOp? lexeme.kind = some op)
    (hstop : lexeme.kind.stopsOperand = true ∧ endsArrow lexeme.kind = true ∧ lexeme.kind.isFlat = true)
    (hbare : ∀ l' r', l'.bare = l.bare → r'.bare = r.bare → (op.apply l' r').bare = e.bare) (hl : ReadsBack l)
    (hr : ReadsBack r) (hnested : Nested (lexemes (Layout.expr l)) n) (hnested' : Nested (lexemes (Layout.expr r)) m) :
    ReadsBack e := by
  refine .of_assignable hlay hawait (Layout.infix_nested hstop.2.2 hnested hnested') ?_
  have hlexemes : lexemes (Layout.expr l ++ (Layout.blank ++ (.lexeme lexeme :: (Layout.blank ++ Layout.expr r)))) =
      lexemes (Layout.expr l) ++ lexeme :: lexemes (Layout.expr r) := by simp
  rw [hlexemes]
  refine .of_binary (by simp) (hl.unary.plain.append fun s rest hs _ => noArrow_of_first hstop.2.1 s rest hs) ?_
  exact fun D hD => binary_reads hl.unary hr.unary hop hstop.1 hbare hD

theorem binary_readsBack (op : BinaryOp) {l r : Expr} (span : Span) (hl : ReadsBack l) (hr : ReadsBack r)
    (hnested : Nested (lexemes (Layout.expr l)) n) (hnested' : Nested (lexemes (Layout.expr r)) m) :
    ReadsBack (.binary op l r span) := by
  refine infix_readsBack (.binary op) rfl rfl ?_ ?_ (fun l' r' hl' hr' => ?_) hl hr hnested hnested'
  · cases op <;> rfl
  · cases op <;> exact ⟨rfl, rfl, rfl⟩
  · rw [InfixOp.apply, Expr.bare, Expr.bare, hl', hr']

theorem logical_readsBack (op : LogicalOp) {l r : Expr} (span : Span) (hl : ReadsBack l) (hr : ReadsBack r)
    (hnested : Nested (lexemes (Layout.expr l)) n) (hnested' : Nested (lexemes (Layout.expr r)) m) :
    ReadsBack (.logical op l r span) := by
  refine infix_readsBack (.logical op) rfl rfl ?_ ?_ (fun l' r' hl' hr' => ?_) hl hr hnested hnested'
  · cases op <;> rfl
  · cases op <;> exact ⟨rfl, rfl, rfl⟩
  · rw [InfixOp.apply, Expr.bare, Expr.bare, hl', hr']

theorem conditional_readsBack {test yes no : Expr} (span : Span) (htest : ReadsBack test) (hyes : ReadsBack yes)
    (hno : ReadsBack no) (hnested : Nested (lexemes (Layout.expr test)) m) (hnested' : Nested (lexemes (Layout.expr yes)) n)
    {k : Nat} (hnested'' : Nested (lexemes (Layout.expr no)) k) : ReadsBack (.conditional test yes no span) := by
  refine .of_assignable rfl rfl (Layout.conditional_nested hnested hnested' hnested'') ?_
  have htest' := (htest.assignable.parens hnested).unary
  have hyes' := (hyes.assignable.parens hnested').unary.assignable
  have hno' := (hno.assignable.parens hnested'').unary.assignable
  have h := Unary.conditional (R := fun e => e.bare = (Expr.conditional test yes no span).bare) htest' hyes' hno'
    fun t y n _ ht hy hn => by rw [Expr.bare, Expr.bare, ht, hy, hn]
  simpa using h

theorem assign_readsBack {op : AssignOp} {p : Pattern} {e : Expr} (span : Span) (hop : op.punct?.isSome = true)
    (hsimple : op = .assign ∨ p.isSimple = true) (hp : TargetReadsBack p) (he : ReadsBack e)
    (hnested : Nested (lexemes (Layout.pattern p)) m) (hnested' : Nested (lexemes (Layout.expr e)) n) :
    ReadsBack (.assign op p e span) := by
  refine .of_assignable rfl rfl (Layout.infix_nested op.isFlat_lexeme hnested hnested') ?_
  have hlay : lexemes (Layout.pattern p ++ (Layout.blank ++ (.lexeme op.lexeme :: (Layout.blank ++ Layout.expr e)))) =
      lexemes (Layout.pattern p) ++ op.lexeme :: lexemes (Layout.expr e) := by simp
  rw [hlay]
  have htarget : Unary (lexemes (Layout.pattern p)) fun e =>
      ∃ p', (if op = .assign then toPattern e else toSimpleTarget e) = .ok p' ∧ p'.bare = p.bare := by
    refine (Operand.mono hp fun e he => ?_).unary
    obtain ⟨p', hconvert, hbare, hconvert'⟩ := he
    refine ⟨p', ?_, hbare⟩
    split
    · exact hconvert
    · exact hconvert' (hsimple.resolve_left ‹_›)
  exact htarget.assign hop he.assignable fun p' v _ hp' hv => by rw [Expr.bare, Expr.bare, hp', hv]

theorem lexemes_commas_eq (ps : List Piece) (pss : List (List Piece)) :
    lexemes (commas (ps :: pss)) = lexemes ps ++ pss.flatMap fun qs => .mark .comma :: lexemes qs := by
  induction pss generalizing ps with
  | nil => simp [commas]
  | cons qs pss ih => rw [lexemes_commas_cons, ih, List.flatMap_cons, List.cons_append]

theorem bareExprs_eq {es es' : List Expr} (h : List.Forall₂ (fun e e' => e'.bare = e.bare) es es') :
    bareExprs es' = bareExprs es := by
  induction h with
  | nil => rfl
  | cons he _ ih => rw [bareExprs, bareExprs, he, ih]

theorem sequence_readsBack {es : List Expr} (span : Span) (hlength : 2 ≤ es.length) (h : ∀ e ∈ es, ReadsBack e)
    (hnested : Nested (lexemes (commas (Layout.exprs es))) n) : ReadsBack (.sequence es span) := by
  refine .of_operand ?_ rfl
  obtain _ | ⟨e, _ | ⟨e₂, es⟩⟩ := es
  · cases hlength
  · exact absurd hlength (Nat.not_succ_le_self 1)
  rw [Layout.expr, Layout.lexemes_parens]
  refine .parens hnested fun D hD => ?_
  have hlay : lexemes (commas (Layout.exprs (e :: e₂ :: es))) = lexemes (Layout.expr e) ++
      (e₂ :: es).flatMap fun e => .mark .comma :: lexemes (Layout.expr e) := by
    rw [Layout.exprs_eq, List.map_cons, lexemes_commas_eq, List.flatMap_map]
  have hle : ∀ e' ∈ e :: e₂ :: es, (lexemes (Layout.expr e')).length ≤ D := by
    intro e' he'
    refine Nat.le_trans (length_le_commas (List.mem_map_of_mem he')) ?_
    rwa [← Layout.exprs_eq]
  rw [hlay]
  refine .bind ((h e List.mem_cons_self).assignable.inner (hle e List.mem_cons_self)) rfl fun e' he' => ?_
  refine .atPunct (b := true) rfl (.bound fun n hn => ?_)
  have hmore := moreAssignments_reads (fun e' he' => (h e' (List.mem_cons_of_mem e he')).assignable)
    (fun e' he' => hle e' (List.mem_cons_of_mem e he')) n hn
  refine .bind_pure hmore fun es' hes' => .pure ?_
  rw [Expr.bare, Expr.bare, bareExprs, he', bareExprs_eq hes', ← bareExprs]

theorem arrow_readsBack {ps : List Pattern} {body : ArrowBody} (isAsync : Bool) (span : Span)
    (hps : ∀ p ∈ ps, p.Legible true .bind .param ∧ BindingReadsBack p) (hbody : BodyReadsBack body)
    (hnested : Layout.NestedAll (Layout.patterns ps) m) (hnested' : Nested (lexemes (Layout.arrowBody body)) n) :
    ReadsBack (.arrow ps body isAsync span) := by
  refine .of_assignable rfl rfl (Layout.arrow_nested isAsync hnested hnested') ?_
  have hlay : lexemes ((if isAsync then Layout.word "async" ++ Layout.blank else []) ++ (Layout.parens
      (commas (Layout.patterns ps)) ++ (Layout.blank ++ (Layout.mark .arrow ++ (Layout.blank ++ Layout.arrowBody body))))) =
      arrowLexemes ps body isAsync := by
    cases isAsync <;> simp [arrowLexemes, Layout.patterns_eq]
  rw [hlay]
  refine ⟨by cases isAsync <;> simp [arrowLexemes], fun D hD => ?_⟩
  have hparams := Layout.commas_nested hnested
  rw [Layout.patterns_eq] at hparams
  exact assignment_arrow (fun s rest hs => arrowAhead_true hparams hs) (arrow_reads isAsync span hps hbody hD)

/-! ## Trees -/

theorem legiblePatternProps_singleton {mode : Render.Mode} {p : PatternProp} {ps : List PatternProp}
    (h : LegiblePatternProps true mode (p :: ps)) : LegiblePatternProps true mode [p] := by
  cases p with
  | init => exact ⟨h.1, h.2.1, h.2.2.1, trivial⟩
  | rest => exact ⟨h.1, h.2.1, trivial⟩

mutual

theorem expr_readsBack (e : Expr) (h : e.Legible true) : ReadsBack e := by
  match e with
  | .literal lit span =>
      exact .of_operand ((literal_operand lit).mono fun _ ⟨_, he⟩ => by rw [he, Expr.bare, Expr.bare]) rfl
  | .template parts es span => exact template_readsBack span h.1 (exprs_readsBack es h.2.2)
  | .array es span => exact array_readsBack span fun i hi => (items_readsBack es true h i hi).1
  | .object ps span =>
      exact object_readsBack span (properties_readsBack ps h)
        (Layout.braces_nested (Layout.commas_nested (Layout.properties_nested ps h)))
  | .identifier name span =>
      exact .of_operand ((identifier_operand h).mono fun _ ⟨_, he⟩ => by rw [he, Expr.bare, Expr.bare]) rfl
  | .member o k optional span => exact member_readsBack optional span (expr_readsBack o h.1) h.2 (access_readsBack k h.2)
  | .call callee args optional span =>
      refine call_readsBack optional span (expr_readsBack callee h.1) (fun i hi => ?_)
        (Layout.commas_nested (Layout.items_nested args false h.2))
      have hi := items_readsBack args false h.2 i hi
      exact ⟨hi.1, hi.2 rfl⟩
  | .arrow ps body isAsync span =>
      exact arrow_readsBack isAsync span (bindings_readsBack .param ps h.1) (arrowBody_readsBack body h.2)
        (Layout.patterns_nested .bind .param ps h.1) (Layout.arrowBody_nested body h.2)
  | .function _ => cases h
  | .this _ => cases h
  | .await e span => exact await_readsBack span (expr_readsBack e h) (Layout.expr_nested e h)
  | .unary op e span => exact unary_readsBack op span (expr_readsBack e h) (Layout.expr_nested e h)
  | .update op before p span =>
      exact update_readsBack op before span h.1 (target_readsBack p h.2) (Layout.pattern_nested .assign .target p h.2)
  | .binary op l r span =>
      exact binary_readsBack op span (expr_readsBack l h.1) (expr_readsBack r h.2) (Layout.expr_nested l h.1)
        (Layout.expr_nested r h.2)
  | .logical op l r span =>
      exact logical_readsBack op span (expr_readsBack l h.1) (expr_readsBack r h.2) (Layout.expr_nested l h.1)
        (Layout.expr_nested r h.2)
  | .conditional test yes no span =>
      exact conditional_readsBack span (expr_readsBack test h.1) (expr_readsBack yes h.2.1) (expr_readsBack no h.2.2)
        (Layout.expr_nested test h.1) (Layout.expr_nested yes h.2.1) (Layout.expr_nested no h.2.2)
  | .assign op p e span =>
      exact assign_readsBack span h.1 h.2.1 (target_readsBack p h.2.2.1) (expr_readsBack e h.2.2.2)
        (Layout.pattern_nested .assign .target p h.2.2.1) (Layout.expr_nested e h.2.2.2)
  | .sequence es span =>
      exact sequence_readsBack span h.1 (exprs_readsBack es h.2) (Layout.commas_nested (Layout.exprs_nested es h.2))

theorem exprs_readsBack (es : List Expr) (h : LegibleExprs true es) : ∀ e ∈ es, ReadsBack e := by
  match es with
  | [] => nofun
  | e :: more => exact List.forall_mem_cons.2 ⟨expr_readsBack e h.1, exprs_readsBack more h.2⟩

theorem items_readsBack (es : List Item) (holes : Bool) (h : LegibleItems true holes es) :
    ∀ i ∈ es, ItemReadsBack i ∧ (holes = false → Render.Item.isHole i = false) := by
  match es with
  | [] => nofun
  | .expr e :: more =>
      exact List.forall_mem_cons.2 ⟨⟨⟨expr_readsBack e h.1, expr_starts e h.1⟩, fun _ => rfl⟩, items_readsBack more holes h.2⟩
  | .spread e :: more =>
      exact List.forall_mem_cons.2 ⟨⟨expr_readsBack e h.1, fun _ => rfl⟩, items_readsBack more holes h.2⟩
  | .hole :: more =>
      refine List.forall_mem_cons.2 ⟨⟨trivial, fun hholes => ?_⟩, items_readsBack more holes h.2⟩
      exact absurd (hholes.symm.trans h.1) Bool.false_ne_true

theorem access_readsBack (k : Key) (h : k.LegibleAccess true) : ∀ e, k = .computed e → ReadsBack e := by
  match k with
  | .name _ => nofun
  | .literal _ => nofun
  | .computed e =>
      rintro _ ⟨⟩
      exact expr_readsBack e h

theorem key_readsBack (k : Key) (h : k.Legible true) : KeyReadsBack k := by
  match k with
  | .name _ => trivial
  | .literal _ => trivial
  | .computed e => exact expr_readsBack e h

theorem properties_readsBack (ps : List Property) (h : LegibleProperties true ps) :
    ∀ p ∈ ps, LegibleProperties true [p] ∧ PropertyReadsBack p := by
  match ps with
  | [] => nofun
  | .init k e _ _ :: more =>
      refine List.forall_mem_cons.2 ⟨⟨⟨h.1, h.2.1, h.2.2.1, trivial⟩, ?_⟩, properties_readsBack more h.2.2.2⟩
      exact ⟨key_readsBack k h.2.1, expr_readsBack e h.2.2.1⟩
  | .spread e :: more =>
      refine List.forall_mem_cons.2 ⟨⟨⟨h.1, trivial⟩, ?_⟩, properties_readsBack more h.2⟩
      exact ⟨expr_readsBack e h.1, _, Layout.expr_nested e h.1⟩

theorem arrowBody_readsBack (body : ArrowBody) (h : body.Legible true) : BodyReadsBack body := by
  match body with
  | .expr e => exact ⟨expr_readsBack e h, expr_starts e h⟩
  | .block b => exact block_readsBack b h

theorem target_readsBack (p : Pattern) (h : p.Legible true .assign .target) : TargetReadsBack p := by
  match p with
  | .ident id => exact ident_targetReadsBack h
  | .array elements span => exact array_targetReadsBack span (parts_readsBack elements h)
  | .object props span => exact object_targetReadsBack span (entries_readsBack props h)
  | .assign _ _ => cases h.1
  | .rest _ => cases h.1
  | .member e => exact member_targetReadsBack h.2.1 (expr_readsBack e h.2.2)
  | .hole => cases h

theorem part_readsBack (place : Place) (p : Pattern) (h : p.Legible true .assign place) : PartReadsBack p := by
  match p with
  | .ident id => exact ident_targetReadsBack h
  | .array elements span => exact array_targetReadsBack span (parts_readsBack elements h)
  | .object props span => exact object_targetReadsBack span (entries_readsBack props h)
  | .assign p default => exact ⟨target_readsBack p h.2.1, expr_readsBack default h.2.2⟩
  | .rest p => exact target_readsBack p h.2
  | .member e => exact member_targetReadsBack h.2.1 (expr_readsBack e h.2.2)
  | .hole => trivial

theorem parts_readsBack (ps : List Pattern) (h : LegiblePatterns true .assign .element ps) :
    ∀ p ∈ ps, p.Legible true .assign .element ∧ PartReadsBack p := by
  match ps with
  | [] => nofun
  | p :: more => exact List.forall_mem_cons.2 ⟨⟨h.1, part_readsBack .element p h.1⟩, parts_readsBack more h.2⟩

theorem entries_readsBack (ps : List PatternProp) (h : LegiblePatternProps true .assign ps) :
    ∀ p ∈ ps, LegiblePatternProps true .assign [p] ∧ EntryReadsBack p := by
  match ps with
  | [] => nofun
  | .init k p _ :: more =>
      refine List.forall_mem_cons.2 ⟨⟨legiblePatternProps_singleton h, ?_⟩, entries_readsBack more h.2.2.2⟩
      exact ⟨key_readsBack k h.2.1, part_readsBack .entry p h.2.2.1⟩
  | .rest p :: more =>
      exact List.forall_mem_cons.2 ⟨⟨legiblePatternProps_singleton h, target_readsBack p h.2.1⟩,
        entries_readsBack more h.2.2⟩

theorem binds_of_legible (p : Pattern) (h : p.Legible true .bind .target) : Binds p := by
  match p with
  | .ident id => exact ident_binds h
  | .array elements span => exact array_binds span (bindings_readsBack .element elements h)
  | .object props span => exact object_binds span (bindingProps_readsBack props h)
  | .assign _ _ => cases h.1
  | .rest _ => cases h.1
  | .member _ => cases h.1
  | .hole => cases h

theorem binding_readsBack (place : Place) (p : Pattern) (h : p.Legible true .bind place) : BindingReadsBack p := by
  match p with
  | .ident id => exact ident_binds h
  | .array elements span => exact array_binds span (bindings_readsBack .element elements h)
  | .object props span => exact object_binds span (bindingProps_readsBack props h)
  | .assign p default => exact ⟨binds_of_legible p h.2.1, expr_readsBack default h.2.2⟩
  | .rest p => exact binds_of_legible p h.2
  | .member _ => cases h.1
  | .hole => trivial

theorem bindings_readsBack (place : Place) (ps : List Pattern) (h : LegiblePatterns true .bind place ps) :
    ∀ p ∈ ps, p.Legible true .bind place ∧ BindingReadsBack p := by
  match ps with
  | [] => nofun
  | p :: more =>
      exact List.forall_mem_cons.2 ⟨⟨h.1, binding_readsBack place p h.1⟩, bindings_readsBack place more h.2⟩

theorem bindingProps_readsBack (ps : List PatternProp) (h : LegiblePatternProps true .bind ps) :
    ∀ p ∈ ps, LegiblePatternProps true .bind [p] ∧ PropReadsBack p := by
  match ps with
  | [] => nofun
  | .init k p _ :: more =>
      refine List.forall_mem_cons.2 ⟨⟨legiblePatternProps_singleton h, ?_⟩, bindingProps_readsBack more h.2.2.2⟩
      exact ⟨key_readsBack k h.2.1, binding_readsBack .entry p h.2.2.1⟩
  | .rest p :: more =>
      exact List.forall_mem_cons.2 ⟨⟨legiblePatternProps_singleton h, trivial⟩, bindingProps_readsBack more h.2.2⟩

theorem block_readsBack (b : Block) (h : b.Legible true) : BlockReadsBack b := by
  match b with
  | .mk ss span => exact braces_readsBack span (statements_readsBack ss h)

theorem statements_readsBack (ss : List Stmt) (h : LegibleStmts true ss) : ∀ s ∈ ss, StmtReadsBack s := by
  match ss with
  | [] => nofun
  | s :: more => exact List.forall_mem_cons.2 ⟨statement_readsBack s h.1, statements_readsBack more h.2⟩

theorem statement_readsBack (s : Stmt) (h : s.Legible true) : StmtReadsBack s := by
  match s with
  | .expr e span => exact expr_stmtReadsBack span (expr_readsBack e h) (expr_starts e h)
  | .declare d span => exact declare_stmtReadsBack span (varDecl_readsBack d h)
  | .return arg span => exact return_stmtReadsBack span (option_readsBack arg h)
  | .cond test yes none span =>
      obtain ⟨b, hyes, hb⟩ := body_readsBack yes h.2.2 (h.1 rfl)
      rw [hyes]
      exact cond_stmtReadsBack span (expr_readsBack test h.2.1) hb
  | .cond test yes (some no) span =>
      obtain ⟨b, hyes, hb⟩ := body_readsBack yes h.2.2.1 (h.1 rfl).1
      obtain ⟨b', hno, hb'⟩ := body_readsBack no h.2.2.2 (h.1 rfl).2
      rw [hyes, hno]
      exact condElse_stmtReadsBack span (expr_readsBack test h.2.1) hb hb'
  | .while test body span =>
      obtain ⟨b, hbody, hb⟩ := body_readsBack body h.2.2 (h.1 rfl)
      rw [hbody]
      exact while_stmtReadsBack span (expr_readsBack test h.2.1) hb
  | .doWhile body test span =>
      obtain ⟨b, hbody, hb⟩ := body_readsBack body h.2.1 (h.1 rfl)
      rw [hbody]
      exact doWhile_stmtReadsBack span (expr_readsBack test h.2.2) hb
  | .for init test update body span =>
      obtain ⟨b, hbody, hb⟩ := body_readsBack body h.2.2.2.2 (h.1 rfl)
      rw [hbody]
      exact for_stmtReadsBack span (forInit_readsBack init h.2.1) (option_readsBack test h.2.2.1)
        (option_readsBack update h.2.2.2.1) hb
  | .block b => exact block_stmtReadsBack (block_readsBack b h)
  | .break span => exact break_stmtReadsBack span
  | .continue span => exact continue_stmtReadsBack span
  | .debugger span => exact debugger_stmtReadsBack span
  | .empty span => exact empty_stmtReadsBack span
  | .function _ => cases h

theorem body_readsBack (s : Stmt) (h : s.Legible true) (hblock : s.isBlock = true) :
    ∃ b, s = .block b ∧ BlockReadsBack b := by
  match s with
  | .block b => exact ⟨b, rfl, block_readsBack b h⟩

theorem option_readsBack (e : Option Expr) (h : LegibleOption true e) : OptionReadsBack e := by
  match e with
  | none => trivial
  | some e => exact ⟨expr_readsBack e h, expr_starts e h⟩

theorem forInit_readsBack (init : ForInit) (h : init.Legible true) : ForInitReadsBack init := by
  match init with
  | .absent => trivial
  | .declare d => exact varDecl_readsBack d h
  | .expr e => exact ⟨expr_readsBack e h, expr_starts e h⟩

theorem varDecl_readsBack (d : VarDecl) (h : d.Legible true) : DeclReadsBack d := by
  match d with
  | .mk _ ds _ => exact ⟨h.1, declarators_readsBack ds h.2⟩

theorem declarators_readsBack (ds : List Declarator) (h : LegibleDeclarators true ds) :
    ∀ d ∈ ds, DeclaratorReadsBack d := by
  match ds with
  | [] => nofun
  | .mk p init _ :: more =>
      exact List.forall_mem_cons.2 ⟨⟨binds_of_legible p h.1, option_readsBack init h.2.1⟩, declarators_readsBack more h.2.2⟩

end

end FieldScript.Parse
