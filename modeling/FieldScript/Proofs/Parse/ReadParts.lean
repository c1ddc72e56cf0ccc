import FieldScript.Proofs.Parse.Operands
import FieldScript.Proofs.Syntax.Bare

/-!
# Reading back one construct

For each construct of the language: if its parts are read back from their layouts, so is the whole. A part is read
back if reading gives it again up to places.
-/

namespace FieldScript.Parse

open Token (Kind Lexeme Spells Stream Piece)
open Token.Piece (lexemes)
open Layout (commas)

variable {ls ls' : List Lexeme} {P : Kind → Bool} {n : Nat}

/-! ## What is read back -/

/-- An expression that is read back. -/
structure ReadsBack (e : Expr) : Prop where
  unary : Unary (lexemes (Layout.expr e)) fun e' => e'.bare = e.bare
  operand : Operand (lexemes (Layout.operand e (Layout.expr e))) fun e' => e'.bare = e.bare

/-- What is read as an operand anywhere. -/
theorem ReadsBack.of_operand {e : Expr} (h : Operand (lexemes (Layout.expr e)) fun e' => e'.bare = e.bare)
    (hawait : Layout.operand e (Layout.expr e) = Layout.expr e) : ReadsBack e := ⟨h.unary, by rwa [hawait]⟩

/-- What stands between parentheses. -/
theorem ReadsBack.of_assignable {e : Expr} {ps : List Piece} {m : Nat} (hlay : Layout.expr e = Layout.parens ps)
    (hawait : Layout.operand e (Layout.expr e) = Layout.expr e) (hnested : Nested (lexemes ps) m)
    (h : Assignable (lexemes ps) fun e' => e'.bare = e.bare) : ReadsBack e := by
  refine .of_operand ?_ hawait
  rw [hlay, Layout.lexemes_parens]
  exact h.parens hnested

theorem ReadsBack.assignable {e : Expr} (h : ReadsBack e) :
    Assignable (lexemes (Layout.expr e)) fun e' => e'.bare = e.bare := h.unary.assignable

/-! ## Operands without parts -/

theorem Operand.of_primary {Q : Expr → Prop} {l : Lexeme} (hstart : l.kind.startsOperand = true) (hplain : Plain (l :: ls))
    (h : ∀ D, (l :: ls).length ≤ D + 1 → Reads (primary (grammar D)) (l :: ls) (fun _ => true) Q) : Operand (l :: ls) Q :=
  ⟨⟨l, ls, rfl, hstart⟩, fun D hD => .of_primary (h D hD), hplain⟩

theorem identifier_operand {name : String} (h : IsName name) :
    Operand [.word name] fun e => ∃ span, e = .identifier name span := by
  refine .of_primary ?_ (plain_name h) fun D _ => ?_
  · rcases h.2 with hname | rfl
    · show (Token.wordKind name).startsOperand = true
      rw [hname]
      rfl
    · rfl
  · unfold primary
    refine .peek fun t kind _ _ => ?_
    rcases h.2 with hname | rfl
    · simp only [show t.kind = .identifier name from kind.trans hname]
      exact .advance fun _ _ _ _ => .pure ⟨_, rfl⟩
    · simp only [show t.kind = .keyword .asyncWord from kind]
      exact .advance fun _ _ _ _ => .pure ⟨_, rfl⟩

theorem text_lexeme (lit : Literal) : String.ofList lit.lexeme.chars = lit.raw := by
  unfold Literal.lexeme
  split <;> exact String.ofList_toList

theorem literal_operand (lit : Literal) : Operand [lit.lexeme] fun e => ∃ span, e = .literal lit span := by
  have hkind : lit.lexeme.kind.startsOperand = true ∧ lit.lexeme.kind.isName = false ∧
      lit.lexeme.kind.isMark .openParen = false := by
    unfold Literal.lexeme
    split <;> exact ⟨rfl, rfl, rfl⟩
  refine .of_primary hkind.1 (plain_of_first hkind.2.1 hkind.2.2) fun D _ => ?_
  have htext := text_lexeme lit
  obtain ⟨value, raw⟩ := lit
  unfold primary
  refine .peek fun t kind text _ => ?_
  have hraw : t.text = raw := text.trans htext
  match value with
  | .number x =>
      simp only [show t.kind = .number x from kind, hraw]
      exact .advance fun _ _ _ _ => .pure ⟨_, rfl⟩
  | .string s =>
      simp only [show t.kind = .string s from kind, hraw]
      exact .advance fun _ _ _ _ => .pure ⟨_, rfl⟩
  | .bool true =>
      simp only [show t.kind = .keyword .trueWord from kind, hraw]
      exact .advance fun _ _ _ _ => .pure ⟨_, rfl⟩
  | .bool false =>
      simp only [show t.kind = .keyword .falseWord from kind, hraw]
      exact .advance fun _ _ _ _ => .pure ⟨_, rfl⟩
  | .null =>
      simp only [show t.kind = .keyword .nullWord from kind, hraw]
      exact .advance fun _ _ _ _ => .pure ⟨_, rfl⟩

/-! ## How expressions start -/

/-- Kinds of tokens that expressions start with. -/
def startsExpr : Kind → Bool
  | .number _ | .string _ | .template _ | .templateHead _ | .identifier _ => true
  | .keyword .asyncWord | .keyword .trueWord | .keyword .falseWord | .keyword .nullWord | .keyword .awaitWord => true
  | .punct .openParen | .punct .openBracket => true
  | _ => false

/-- The first lexeme of a layout is of a kind as told. -/
def Starts (N : Kind → Bool) (ps : List Piece) : Prop := ∃ l ls, lexemes ps = l :: ls ∧ N l.kind = true

theorem Starts.append {N : Kind → Bool} {ps : List Piece} (h : Starts N ps) (qs : List Piece) : Starts N (ps ++ qs) := by
  obtain ⟨l, ls, hls, hl⟩ := h
  exact ⟨l, ls ++ lexemes qs, by simp [hls], hl⟩

theorem Starts.mono {N N' : Kind → Bool} {ps : List Piece} (h : Starts N ps) (himp : ∀ k, N k = true → N' k = true) :
    Starts N' ps := by
  obtain ⟨l, ls, hls, hl⟩ := h
  exact ⟨l, ls, hls, himp _ hl⟩

theorem Starts.begins {N : Kind → Bool} {ps : List Piece} (h : Starts N ps) : Begins N P (lexemes ps) := by
  obtain ⟨l, more, hls, hl⟩ := h
  rw [hls]
  exact hl

theorem Starts.ne_nil {N : Kind → Bool} {ps : List Piece} (h : Starts N ps) : lexemes ps ≠ [] := by
  obtain ⟨l, more, hls, -⟩ := h
  rw [hls]
  exact List.cons_ne_nil l more

theorem starts_parens (ps : List Piece) : Starts startsExpr (Layout.parens ps) := ⟨_, _, Layout.lexemes_parens ps, rfl⟩

theorem starts_operand {ps : List Piece} (e : Expr) (h : Starts startsExpr ps) : Starts startsExpr (Layout.operand e ps) := by
  unfold Layout.operand
  split
  · exact starts_parens ps
  · exact h

theorem startsExpr_name {name : String} (h : IsName name) : startsExpr (Token.wordKind name) = true := by
  rcases h.2 with hname | rfl
  · rw [hname]
    rfl
  · rfl

theorem expr_starts (e : Expr) (h : e.Legible true) : Starts startsExpr (Layout.expr e) := by
  match e with
  | .literal lit _ =>
      refine ⟨lit.lexeme, [], rfl, ?_⟩
      unfold Literal.lexeme
      split <;> rfl
  | .template (_ :: _) [] _ => exact ⟨_, _, rfl, rfl⟩
  | .template (_ :: _) (_ :: _) _ => exact ⟨_, _, rfl, rfl⟩
  | .template [] _ _ => cases h.1
  | .array _ _ => exact ⟨_, _, rfl, rfl⟩
  | .identifier name _ => exact ⟨_, _, rfl, startsExpr_name h⟩
  | .member o _ _ _ => exact (starts_operand o (expr_starts o h.1)).append _
  | .call callee _ _ _ => exact (starts_operand callee (expr_starts callee h.1)).append _
  | .function _ => cases h
  | .this _ => cases h
  | .await _ _ => exact ⟨_, _, rfl, rfl⟩
  | .object _ _ | .arrow _ _ _ _ | .unary _ _ _ | .update _ _ _ _ | .binary _ _ _ _ | .logical _ _ _ _
  | .conditional _ _ _ _ | .assign _ _ _ _ | .sequence _ _ => exact starts_parens _

/-- Expressions start with few marks. -/
theorem isMark_of_startsExpr (mark : Punct) {k : Kind} (hparen : mark ≠ .openParen) (hbracket : mark ≠ .openBracket)
    (h : startsExpr k = true) : (k.isMark mark == false) = true := by
  cases hk : k.isMark mark with
  | false => rfl
  | true =>
      rw [Kind.eq_of_isMark hk] at h
      unfold startsExpr at h
      split at h <;> simp_all

/-! ## Templates -/

theorem stopsExpression_piece (part : TemplatePart) (ending : Token.TemplateEnd) :
    (Lexeme.piece false part ending).kind.stopsExpression = true := by
  cases ending <;> rfl

theorem templateRest_reads {D : Nat} {start : Span} {e : Expr} {es : List Expr} (he : ReadsBack e)
    (hes : ∀ e' ∈ es, ReadsBack e') {parts : List TemplatePart} (hparts : parts.length = es.length + 1)
    (before : List TemplatePart) (done : List Expr)
    (hD : (lexemes (Layout.expr e ++ Layout.template false parts (Layout.exprs es))).length ≤ D) (n : Nat)
    (hn : (lexemes (Layout.expr e ++ Layout.template false parts (Layout.exprs es))).length < n) :
    Reads (templateRest (grammar D) start before done n)
      (lexemes (Layout.expr e ++ Layout.template false parts (Layout.exprs es))) P fun r =>
        ∃ es' span, r = .template (before.reverse ++ parts) (done.reverse ++ es') span ∧
          bareExprs es' = bareExprs (e :: es) := by
  induction es generalizing e parts before done n with
  | nil =>
      obtain ⟨part, rfl⟩ := List.length_eq_one_iff.1 hparts
      obtain ⟨n, rfl⟩ : ∃ m, n = m + 1 := ⟨n - 1, by omega⟩
      rw [Piece.lexemes_append] at hD ⊢
      rw [List.length_append] at hD
      refine .bind (he.assignable.expression (by omega)) (stopsExpression_piece part .closed) fun e' he' => ?_
      refine .advance fun t kind _ _ => ?_
      simp only [show t.kind = .templateTail part from kind]
      exact .pure ⟨[e'], start.merge t.span, by simp, by simp [he']⟩
  | cons e₂ es ih =>
      obtain _ | ⟨part, parts⟩ := parts
      · cases hparts
      obtain ⟨n, rfl⟩ : ∃ m, n = m + 1 := ⟨n - 1, by omega⟩
      have hlay : lexemes (Layout.expr e ++ Layout.template false (part :: parts) (Layout.exprs (e₂ :: es))) =
          lexemes (Layout.expr e) ++ (.piece false part .substitution ::
            lexemes (Layout.expr e₂ ++ Layout.template false parts (Layout.exprs es))) := by
        simp [Layout.exprs, Layout.template]
      rw [hlay] at hD hn ⊢
      rw [List.length_append, List.length_cons] at hD hn
      refine .bind (he.assignable.expression (by omega)) (stopsExpression_piece part .substitution) fun e' he' => ?_
      refine .advance fun t kind _ _ => ?_
      simp only [show t.kind = .templateMiddle part from kind]
      refine (ih (hes e₂ List.mem_cons_self) (fun e' he' => hes e' (List.mem_cons_of_mem e₂ he')) (Nat.succ.inj hparts)
        (part :: before) (e' :: done) (by omega) n (by omega)).mono ?_
      rintro _ ⟨es', span, rfl, hbare⟩
      refine ⟨e' :: es', span, by simp, ?_⟩
      rw [bareExprs, hbare, he']
      rfl

theorem template_readsBack {parts : List TemplatePart} {es : List Expr} (span : Span) (hparts : parts.length = es.length + 1)
    (hes : ∀ e ∈ es, ReadsBack e) : ReadsBack (.template parts es span) := by
  refine .of_operand ?_ rfl
  obtain _ | ⟨part, parts⟩ := parts
  · cases hparts
  cases es with
  | nil =>
      obtain rfl : parts = [] := List.length_eq_zero_iff.1 (Nat.succ.inj hparts)
      refine .of_primary (l := .piece true part .closed) rfl (plain_of_first rfl rfl) fun D _ => ?_
      unfold primary
      refine .peek fun t kind _ _ => ?_
      simp only [show t.kind = .template part from kind]
      exact .advance fun _ _ _ _ => .pure rfl
  | cons e es =>
      refine .of_primary (l := .piece true part .substitution) rfl (plain_of_first rfl rfl) fun D hD => ?_
      unfold primary
      refine .peek fun t kind _ _ => ?_
      simp only [show t.kind = .templateHead part from kind]
      refine .advance fun _ _ _ _ => .bound fun n hn => ?_
      refine (templateRest_reads (hes e List.mem_cons_self) (fun e' he' => hes e' (List.mem_cons_of_mem e he'))
        (Nat.succ.inj hparts) [part] [] (Nat.le_of_succ_le_succ hD) n hn).mono ?_
      rintro _ ⟨es', span', rfl, hbare⟩
      simp [hbare]

/-! ## Arrays and arguments -/

/-- An element or argument that is read back. -/
def ItemReadsBack : Item → Prop
  | .expr e => ReadsBack e ∧ Starts startsExpr (Layout.expr e)
  | .spread e => ReadsBack e
  | .hole => True

/-- Marks that end a list. -/
def isListEnd : Punct → Bool
  | .closeParen | .closeBracket | .closeBrace | .semicolon => true
  | _ => false

theorem stopsAssignment_of_endsItem {close : Punct} (hclose : isListEnd close = true) {k : Kind}
    (h : endsItem close k = true) : k.stopsAssignment = true := by
  simp only [endsItem, Bool.or_eq_true] at h
  rcases h with h | h
  · rw [Kind.eq_of_isMark h]
    rfl
  · rw [Kind.eq_of_isMark h]
    cases close <;> first | rfl | cases hclose

/-- A single element or argument. -/
theorem item_reads_expr {V : Expr → Prop} {close : Punct} (hclose : isListEnd close = true) (hv : Assignable ls V) {D : Nat}
    (hD : ls.length ≤ D) (hbegins : Begins (fun k => k.isMark .ellipsis == false) (endsItem close) ls) :
    Reads (item (grammar D)) ls (endsItem close) fun i => ∃ v, V v ∧ i = .expr v := by
  refine .eatPunct_not hbegins (.bind_pure ((hv.inner hD).stop fun _ => stopsAssignment_of_endsItem hclose) ?_)
  exact fun v hv' => .pure ⟨v, hv', rfl⟩

/-- The elements of another list. -/
theorem item_reads_spread {V : Expr → Prop} {close : Punct} (hclose : isListEnd close = true) (hv : Assignable ls V) {D : Nat}
    (hD : ls.length ≤ D) :
    Reads (item (grammar D)) (.mark .ellipsis :: ls) (endsItem close) fun i => ∃ v, V v ∧ i = .spread v :=
  .eatPunct (.bind_pure ((hv.inner hD).stop fun _ => stopsAssignment_of_endsItem hclose)
    fun v hv' => .pure ⟨v, hv', rfl⟩)

theorem item_reads {close : Punct} (hclose : isListEnd close = true) {i : Item} (h : ItemReadsBack i)
    (hhole : Render.Item.isHole i = false) {D : Nat} (hD : (lexemes (Layout.item i)).length ≤ D) :
    Reads (item (grammar D)) (lexemes (Layout.item i)) (endsItem close) fun i' => bareItems [i'] = bareItems [i] := by
  match i with
  | .expr e =>
      have hstarts := h.2.mono fun _ => isMark_of_startsExpr .ellipsis (by decide) (by decide)
      refine (item_reads_expr hclose h.1.assignable hD hstarts.begins).mono ?_
      rintro _ ⟨e', he', rfl⟩
      simp [he']
  | .spread e =>
      refine (item_reads_spread hclose h.assignable (Nat.le_of_succ_le hD)).mono ?_
      rintro _ ⟨e', he', rfl⟩
      simp [he']
  | .hole => cases hhole

/-- The first token of an element or argument. -/
theorem item_starts {i : Item} (h : ItemReadsBack i) (hhole : Render.Item.isHole i = false) :
    Starts (fun k => !endsItem .closeParen k && !endsItem .closeBracket k) (Layout.item i) := by
  match i with
  | .expr e =>
      refine h.2.mono fun k hk => ?_
      have hmark : ∀ mark, mark ≠ .openParen → mark ≠ .openBracket → k.isMark mark = false :=
        fun mark hparen hbracket => beq_iff_eq.1 (isMark_of_startsExpr mark hparen hbracket hk)
      simp [endsItem, hmark .comma, hmark .closeParen, hmark .closeBracket]
  | .spread e => exact ⟨_, _, rfl, rfl⟩
  | .hole => cases hhole

/-- Elements, of which some may be left out. -/
theorem items_reads {es : List Item} (hes : ∀ i ∈ es, ItemReadsBack i) {D : Nat}
    (hD : (lexemes (commasWithHoles Layout.item Render.Item.isHole es)).length ≤ D) (n : Nat)
    (hn : (lexemes (commasWithHoles Layout.item Render.Item.isHole es)).length < n) :
    Reads (separatedWithHoles .closeBracket .hole (item (grammar D)) n)
      (lexemes (commasWithHoles Layout.item Render.Item.isHole es)) (·.isMark .closeBracket)
      (List.Forall₂ (fun i i' => bareItems [i'] = bareItems [i]) es) := by
  refine separatedWithHoles_reads (by decide) (fun i hi hhole => ?_) (fun i hi hhole => ?_) (fun i hi hhole => ?_) n hn
  · exact item_reads rfl (hes i hi) hhole (Nat.le_trans (length_le_commasWithHoles hi) hD)
  · obtain ⟨l, ls, hls, hl⟩ := item_starts (hes i hi) hhole
    simp only [endsItem, Bool.and_eq_true, Bool.not_eq_true', Bool.or_eq_false_iff] at hl
    exact ⟨l, ls, hls, hl.2.2, hl.1.1⟩
  · cases i <;> first | exact ⟨rfl, rfl⟩ | cases hhole

/-- Arguments, of which none is left out. -/
theorem args_reads {es : List Item} (hes : ∀ i ∈ es, ItemReadsBack i ∧ Render.Item.isHole i = false) {D : Nat}
    (hD : (lexemes (commas (Layout.items es))).length ≤ D) (n : Nat)
    (hn : (lexemes (commas (Layout.items es))).length < n) :
    Reads (separated .closeParen (item (grammar D)) n) (lexemes (commas (Layout.items es))) (·.isMark .closeParen)
      (List.Forall₂ (fun i i' => bareItems [i'] = bareItems [i]) es) := by
  rw [Layout.items_eq] at hD hn ⊢
  refine separated_reads (by decide) (fun i hi => ?_) (fun i hi => ?_) n hn
  · refine item_reads rfl (hes i hi).1 (hes i hi).2 (Nat.le_trans (length_le_commas ?_) hD)
    exact List.mem_map_of_mem hi
  · obtain ⟨l, ls, hls, hl⟩ := item_starts (hes i hi).1 (hes i hi).2
    simp only [endsItem, Bool.and_eq_true, Bool.not_eq_true', Bool.or_eq_false_iff] at hl
    exact ⟨l, ls, hls, hl.1.2⟩

theorem bareItems_cons (i : Item) (is : List Item) : bareItems (i :: is) = bareItems [i] ++ bareItems is := by
  cases i <;> rfl

theorem bareItems_eq {is is' : List Item} (h : List.Forall₂ (fun i i' => bareItems [i'] = bareItems [i]) is is') :
    bareItems is' = bareItems is := by
  induction h with
  | nil => rfl
  | @cons i i' is is' hi _ ih => rw [bareItems_cons i', bareItems_cons i, hi, ih]

theorem array_readsBack {es : List Item} (span : Span) (hes : ∀ i ∈ es, ItemReadsBack i) :
    ReadsBack (.array es span) := by
  refine .of_operand ?_ rfl
  have hlay : lexemes (Layout.expr (.array es span)) = .mark .openBracket ::
      (lexemes (commasWithHoles Layout.item Render.Item.isHole es) ++ [Lexeme.mark .closeBracket]) := by
    simp [Layout.expr, Layout.list, commasWithHoles, Layout.items_eq]
  rw [hlay]
  refine .of_primary rfl (plain_of_first rfl rfl) fun D hD => ?_
  simp only [List.length_cons, List.length_append, List.length_nil] at hD
  unfold primary
  refine .peek fun t kind _ _ => ?_
  simp only [show t.kind = .punct .openBracket from kind]
  refine .advance fun _ _ _ _ => .bound fun n hn => ?_
  rw [List.length_append] at hn
  refine .bind (items_reads hes (by omega) n (by omega)) rfl fun es' hes' => .expectPunct fun _ => .pure ?_
  simp [bareItems_eq hes']

/-! ## Calls and accesses -/

/-- Parentheses behind a function are not parameters if no arrow follows. -/
theorem noArrow_parens (h : Nested ls n) (s rest : Stream)
    (hs : Spells s (.mark .openParen :: (ls ++ [Lexeme.mark .closeParen])) rest) (hrest : NoArrow rest) : NoArrow s := by
  obtain ⟨-, t, hnext, harrow⟩ := hrest
  have hparams := parametersAhead_parens h hs hnext
  rw [harrow] at hparams
  refine ⟨hparams, ?_⟩
  cases hs with
  | @cons first _ _ _ _ kind _ _ _ => exact ⟨first, rfl, by rw [Token.isPunct_eq, kind]; rfl⟩

theorem call_readsBack {callee : Expr} {args : List Item} (optional : Bool) (span : Span) (hcallee : ReadsBack callee)
    (hargs : ∀ i ∈ args, ItemReadsBack i ∧ Render.Item.isHole i = false)
    (hnested : Nested (lexemes (commas (Layout.items args))) n) : ReadsBack (.call callee args optional span) := by
  refine .of_operand ?_ rfl
  rw [Layout.lexemes_call]
  refine hcallee.operand.link (fun D hD => ?_) (by simp) ?_
  · simp only [List.length_append, List.length_cons] at hD
    refine links_call optional (args_reads hargs (by omega)) fun callee' args' span' hcallee' hargs' => ?_
    simp [hcallee', bareItems_eq hargs']
  · cases optional with
    | false => exact noArrow_parens hnested
    | true => exact fun s rest hs _ => noArrow_of_first (l := .mark .optionalDot) rfl s rest hs

theorem member_readsBack {o : Expr} {k : Key} (optional : Bool) (span : Span) (ho : ReadsBack o)
    (hk : k.LegibleAccess true) (hcomputed : ∀ e, k = .computed e → ReadsBack e) :
    ReadsBack (.member o k optional span) := by
  refine .of_operand ?_ rfl
  rw [Layout.expr, Piece.lexemes_append]
  cases k with
  | name id =>
      have hlay : lexemes (Layout.access optional (.name id)) =
          [.mark (if optional then .optionalDot else .dot), .word id.name] := by
        simp [Layout.access]
      rw [hlay]
      refine ho.operand.link (fun D _ => links_name id.name optional fun o' id' span' ho' hid => ?_) (by simp) ?_
      · simp [Ident.bare, ho', hid]
      · cases optional <;> exact fun s rest hs _ => noArrow_of_first rfl s rest hs
  | literal lit => cases hk
  | computed e =>
      have hlay : lexemes (Layout.access optional (.computed e)) = (if optional then [Lexeme.mark .optionalDot] else []) ++
          (Lexeme.mark .openBracket :: (lexemes (Layout.expr e) ++ [Lexeme.mark .closeBracket])) := by
        cases optional <;> simp [Layout.access, Layout.link]
      rw [hlay]
      refine ho.operand.link (fun D hD => ?_) (by simp) ?_
      · simp only [List.length_append, List.length_cons] at hD
        refine links_computed optional ((hcomputed e rfl).assignable.expression (by omega)) fun o' e' span' ho' he' => ?_
        simp [ho', he']
      · cases optional with
        | false => exact fun s rest hs _ => noArrow_of_first (l := .mark .openBracket) rfl s rest hs
        | true => exact fun s rest hs _ => noArrow_of_first (l := .mark .optionalDot) rfl s rest hs

/-! ## Objects -/

/-- A key that is read back. -/
def KeyReadsBack : Key → Prop
  | .computed e => ReadsBack e
  | _ => True

theorem key_reads {k : Key} (hlegible : k.Legible true) (h : KeyReadsBack k) {D : Nat}
    (hD : (lexemes (Layout.key k)).length ≤ D) :
    Reads (key (grammar D)) (lexemes (Layout.key k)) P fun k' => k'.bare = k.bare := by
  unfold key
  cases k with
  | name id =>
      refine .peek (l := .word id.name) fun t kind _ _ => ?_
      have hname : Reads (propertyName >>= fun id' => pure (Key.name id')) [.word id.name] P
          fun k' => k'.bare = (Key.name id).bare :=
        .bind_pure (propertyName_reads id.name) fun id' hid => .pure (by simp [Ident.bare, hid])
      have hkind : t.kind = Token.wordKind id.name := kind
      rcases Token.wordKind_cases id.name with ⟨w, hw, -⟩ | hw | hw
      · simp only [hkind, hw]
        exact hname
      · simp only [hkind, hw]
        exact hname
      · simp only [hkind, hw]
        exact hname
  | literal lit =>
      have htext := text_lexeme lit
      obtain ⟨value, raw⟩ := lit
      refine .peek (l := Literal.lexeme ⟨value, raw⟩) fun t kind text _ => ?_
      have hraw : t.text = raw := text.trans htext
      cases value with
      | number x =>
          simp only [show t.kind = .number x from kind, hraw]
          exact .advance fun _ _ _ _ => .pure rfl
      | string s =>
          simp only [show t.kind = .string s from kind, hraw]
          exact .advance fun _ _ _ _ => .pure rfl
      | bool b => cases hlegible.1
      | null => cases hlegible.1
  | computed e =>
      have hlay : lexemes (Layout.key (.computed e)) =
          Lexeme.mark .openBracket :: (lexemes (Layout.expr e) ++ [Lexeme.mark .closeBracket]) := by
        simp [Layout.key]
      rw [hlay] at hD ⊢
      simp only [List.length_cons, List.length_append] at hD
      refine .peek fun t kind _ _ => ?_
      simp only [show t.kind = .punct .openBracket from kind]
      refine .advance fun _ _ _ _ => .bind (ReadsBack.assignable h |>.inner (by omega)) rfl fun e' he' => ?_
      exact .expectPunct fun _ => .pure (by simp [he'])

/-- Keys start with neither three points nor a mark that ends an entry. -/
theorem key_starts (k : Key) (h : k.Legible true) :
    Starts (fun k => k.isMark .ellipsis == false && !endsItem .closeBrace k) (Layout.key k) := by
  cases k with
  | name id => exact ⟨_, _, rfl, by simp [Lexeme.word, endsItem, isMark_wordKind]⟩
  | literal lit =>
      refine ⟨lit.lexeme, [], rfl, ?_⟩
      unfold Literal.lexeme
      split <;> rfl
  | computed e => exact ⟨_, _, rfl, rfl⟩

section Entries

variable {V : Expr → Prop} {D : Nat}

/-- An entry with its key. -/
theorem property_reads_init {k : Key} (hlegible : k.Legible true) (hk : KeyReadsBack k) (hv : Assignable ls V)
    (hD : (lexemes (Layout.key k) ++ (Lexeme.mark .colon :: ls)).length ≤ D) :
    Reads (property (grammar D)) (lexemes (Layout.key k) ++ (Lexeme.mark .colon :: ls)) (endsItem .closeBrace) fun p =>
      ∃ k' v span, k'.bare = k.bare ∧ V v ∧ p = .init k' v false span := by
  rw [List.length_append, List.length_cons] at hD
  have hstarts : Starts (fun k => k.isMark .ellipsis == false) (Layout.key k) :=
    (key_starts k hlegible).mono fun k hk => (Bool.and_eq_true_iff.1 hk).1
  refine .peekStop (begins_append (P := fun _ => true) hstarts.begins hstarts.ne_nil) fun t ht => ?_
  rw [Token.isPunct_eq, beq_iff_eq.1 ht]
  refine .bind (N := fun _ => true) (key_reads hlegible hk (by omega)) rfl fun k' hk' => .eatPunct ?_
  refine .bind_pure ((hv.inner (by omega)).stop fun k => stopsAssignment_of_endsItem rfl) fun v hv' => ?_
  exact .pure ⟨k', v, _, hk', hv', rfl⟩

/-- A short entry. -/
theorem property_reads_short {name : String} (hname : Token.wordKind name = .identifier name) :
    Reads (property (grammar D)) [.word name] (endsItem .closeBrace) fun p =>
      ∃ id span span', id.name = name ∧ p = .init (.name id) (.identifier name span) true span' := by
  refine .peek fun t kind _ _ => ?_
  have hkind : t.kind = .identifier name := kind.trans hname
  rw [Token.isPunct_eq, hkind]
  have hkey : Reads (key (grammar D)) [.word name] (endsItem .closeBrace) fun k => ∃ id, k = .name id ∧ id.name = name := by
    refine .peek fun t' kind' _ _ => ?_
    simp only [show t'.kind = .identifier name from kind'.trans hname]
    exact .bind_pure (propertyName_reads name) fun id hid => .pure ⟨id, rfl, hid⟩
  refine .bind_pure hkey ?_
  rintro _ ⟨id, rfl, rfl⟩
  have hend : ∀ mark : Punct, mark ≠ .comma → mark ≠ .closeBrace → ∀ k, endsItem .closeBrace k = true →
      (k.isMark mark == false) = true := by
    intro mark hcomma hbrace k hk
    simp only [endsItem, Bool.or_eq_true] at hk
    rcases hk with hk | hk
    · rw [Kind.eq_of_isMark hk]
      simpa using hcomma.symm
    · rw [Kind.eq_of_isMark hk]
      simpa using hbrace.symm
  refine .eatPunct_not (hend .colon (by decide) (by decide)) (.peekStop (hend .openParen (by decide) (by decide))
    fun next hnext => ?_)
  rw [Token.isPunct_eq, beq_iff_eq.1 hnext]
  exact .pure ⟨id, _, _, rfl, rfl⟩

/-- The entries of another object. -/
theorem property_reads_spread (hv : Assignable ls V) (hD : ls.length < D) :
    Reads (property (grammar D)) (.mark .ellipsis :: ls) (endsItem .closeBrace) fun p => ∃ v, V v ∧ p = .spread v := by
  refine .peek fun t kind _ _ => ?_
  rw [Token.isPunct_eq, kind]
  refine .advance fun _ _ _ _ => ?_
  exact .bind_pure ((hv.inner (by omega)).stop fun k => stopsAssignment_of_endsItem rfl) fun v hv' => .pure ⟨v, hv', rfl⟩

end Entries

/-- Entries between braces. -/
theorem braces_operand {A : List Property → Prop}
    (h : ∀ D n, ls.length ≤ D → ls.length < n →
      Reads (separated .closeBrace (property (grammar D)) n) ls (·.isMark .closeBrace) A) :
    Operand (.mark .openBrace :: (ls ++ [Lexeme.mark .closeBrace])) fun e => ∃ ps span, A ps ∧ e = .object ps span := by
  refine .of_primary rfl (plain_of_first rfl rfl) fun D hD => ?_
  simp only [List.length_cons, List.length_append, List.length_nil] at hD
  unfold primary
  refine .peek fun t kind _ _ => ?_
  simp only [show t.kind = .punct .openBrace from kind]
  refine .advance fun _ _ _ _ => .bound fun n hn => ?_
  rw [List.length_append] at hn
  exact .bind (h D n (by omega) (by omega)) rfl fun ps hps => .expectPunct fun _ => .pure ⟨ps, _, hps, rfl⟩

/-- An entry of an object that is read back. -/
def PropertyReadsBack : Property → Prop
  | .init k e _ _ => KeyReadsBack k ∧ ReadsBack e
  | .spread e => ReadsBack e ∧ ∃ m, Nested (lexemes (Layout.expr e)) m

theorem property_reads {p : Property} (hlegible : LegibleProperties true [p]) (h : PropertyReadsBack p) {D : Nat}
    (hD : (lexemes (Layout.property p)).length ≤ D) :
    Reads (property (grammar D)) (lexemes (Layout.property p)) (endsItem .closeBrace) fun p' =>
      bareProperties [p'] = bareProperties [p] := by
  match p with
  | .init k e true _ =>
      obtain ⟨id, span, rfl, rfl, hname⟩ := hlegible.1 rfl
      refine (property_reads_short hname).mono ?_
      rintro _ ⟨id', span', span'', hid, rfl⟩
      simp [Ident.bare, hid]
  | .init k e false _ =>
      have hlay : lexemes (Layout.property (.init k e false ‹_›)) =
          lexemes (Layout.key k) ++ (Lexeme.mark .colon :: lexemes (Layout.expr e)) := by
        simp [Layout.property]
      rw [hlay] at hD ⊢
      refine (property_reads_init hlegible.2.1 h.1 h.2.assignable hD).mono ?_
      rintro _ ⟨k', e', span', hk', he', rfl⟩
      simp [hk', he']
  | .spread e =>
      obtain ⟨he, m, hnested⟩ := h
      have hlay : lexemes (Layout.property (.spread e)) =
          Lexeme.mark .ellipsis :: .mark .openParen :: (lexemes (Layout.expr e) ++ [Lexeme.mark .closeParen]) := by
        simp [Layout.property]
      rw [hlay] at hD ⊢
      rw [List.length_cons] at hD
      refine (property_reads_spread (he.assignable.parens hnested).unary.assignable (by omega)).mono ?_
      rintro _ ⟨e', he', rfl⟩
      simp [he']

theorem property_starts {p : Property} (hlegible : LegibleProperties true [p]) :
    Starts (fun k => !endsItem .closeBrace k) (Layout.property p) := by
  match p with
  | .init k e true _ =>
      obtain ⟨id, span, rfl, rfl, hname⟩ := hlegible.1 rfl
      exact ⟨_, _, rfl, by simp [Lexeme.word, endsItem, isMark_wordKind]⟩
  | .init k e false _ =>
      have hkey : Starts (fun k => !endsItem .closeBrace k) (Layout.key k) := (key_starts k hlegible.2.1).mono
        fun k hk => (Bool.and_eq_true_iff.1 hk).2
      exact (hkey.append _).append _
  | .spread e => exact ⟨_, _, rfl, rfl⟩

theorem bareProperties_cons (p : Property) (ps : List Property) :
    bareProperties (p :: ps) = bareProperties [p] ++ bareProperties ps := by
  cases p <;> rfl

theorem bareProperties_eq {ps ps' : List Property}
    (h : List.Forall₂ (fun p p' => bareProperties [p'] = bareProperties [p]) ps ps') :
    bareProperties ps' = bareProperties ps := by
  induction h with
  | nil => rfl
  | @cons p p' ps ps' hp _ ih => rw [bareProperties_cons p', bareProperties_cons p, hp, ih]

theorem properties_reads {ps : List Property} (hps : ∀ p ∈ ps, LegibleProperties true [p] ∧ PropertyReadsBack p)
    (D n : Nat) (hD : (lexemes (commas (ps.map Layout.property))).length ≤ D)
    (hn : (lexemes (commas (ps.map Layout.property))).length < n) :
    Reads (separated .closeBrace (property (grammar D)) n) (lexemes (commas (ps.map Layout.property)))
      (·.isMark .closeBrace) (List.Forall₂ (fun p p' => bareProperties [p'] = bareProperties [p]) ps) := by
  refine separated_reads (by decide) (fun p hp => ?_) (fun p hp => ?_) n hn
  · exact property_reads (hps p hp).1 (hps p hp).2 (Nat.le_trans (length_le_commas (List.mem_map_of_mem hp)) hD)
  · obtain ⟨l, ls, hls, hl⟩ := property_starts (hps p hp).1
    simp only [endsItem, Bool.not_eq_true', Bool.or_eq_false_iff] at hl
    exact ⟨l, ls, hls, hl.2⟩

theorem object_readsBack {ps : List Property} (span : Span)
    (hps : ∀ p ∈ ps, LegibleProperties true [p] ∧ PropertyReadsBack p)
    (hnested : Nested (lexemes (Layout.braces (commas (Layout.properties ps)))) n) : ReadsBack (.object ps span) := by
  refine .of_assignable (by rw [Layout.expr]) rfl hnested ?_
  rw [Layout.lexemes_braces, Layout.properties_eq]
  refine (Operand.mono (braces_operand (properties_reads hps)) ?_).unary.assignable
  rintro _ ⟨ps', span', hps', rfl⟩
  simp [bareProperties_eq hps']

end FieldScript.Parse
