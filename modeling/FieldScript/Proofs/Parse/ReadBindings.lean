import FieldScript.Proofs.Parse.ReadTargets

/-!
# Reading back bindings and arrow functions

Patterns of declarations and parameters are read as such. An arrow function is known by the arrow behind its
parameters, which reading finds by looking ahead.
-/

namespace FieldScript.Parse

open Token (Kind Lexeme Spells Stream Piece)
open Token.Piece (lexemes)
open Layout (commas)

variable {ls ls' : List Lexeme} {P : Kind → Bool} {n : Nat}

/-! ## Targets of bindings -/

/-- A target of a binding that is read back. -/
structure Binds (p : Pattern) : Prop where
  ne_nil : lexemes (Layout.pattern p) ≠ []
  reads : ∀ D, (lexemes (Layout.pattern p)).length ≤ D + 1 →
    Reads (bindingTarget (grammar D)) (lexemes (Layout.pattern p)) (fun _ => true) fun p' => p'.bare = p.bare

theorem Binds.inner {p : Pattern} (h : Binds p) {D : Nat} (hD : (lexemes (Layout.pattern p)).length ≤ D) :
    Reads (grammar D).bindingTarget (lexemes (Layout.pattern p)) (fun _ => true) fun p' => p'.bare = p.bare := by
  obtain ⟨D, rfl⟩ := exists_depth h.ne_nil hD
  exact h.reads D hD

theorem ident_binds {id : Ident} (h : IsName id.name) : Binds (.ident id) := by
  refine ⟨List.cons_ne_nil _ _, fun D _ => ?_⟩
  unfold bindingTarget
  refine .peek (l := .word id.name) fun t kind _ _ => ?_
  have hname : Reads (bindingName >>= fun id' => pure (Pattern.ident id')) [.word id.name] (fun _ => true)
      fun p' => p'.bare = (Pattern.ident id).bare :=
    .bind_pure (bindingName_reads h) fun id' hid => .pure (by simp [Ident.bare, hid])
  rcases h.2 with hword | hword
  · simp only [show t.kind = .identifier id.name from kind.trans hword]
    exact hname
  · have hkind : t.kind = .keyword .asyncWord := by
      rw [kind, Lexeme.word, hword]
      rfl
    simp only [hkind]
    exact hname

/-- An element, entry or parameter that is read back as a binding. -/
def BindingReadsBack : Pattern → Prop
  | .assign p default => Binds p ∧ ReadsBack default
  | .rest p => Binds p
  | .hole => True
  | p => Binds p

theorem isMark_of_endsItem {close mark : Punct} (hclose : isListEnd close = true) (hmark : mark ≠ .comma)
    (hlist : isListEnd mark = false) {k : Kind} (h : endsItem close k = true) : (k.isMark mark == false) = true := by
  have hne : close ≠ mark := by
    rintro rfl
    rw [hclose] at hlist
    cases hlist
  simp only [endsItem, Bool.or_eq_true] at h
  rcases h with h | h
  · rw [Kind.eq_of_isMark h]
    simpa using hmark.symm
  · rw [Kind.eq_of_isMark h]
    simpa using hne

theorem bindingElement_reads {close : Punct} (hclose : isListEnd close = true) {p : Pattern} (h : BindingReadsBack p)
    (hpart : isPart p = true) {D : Nat} (hD : (lexemes (Layout.pattern p)).length ≤ D) :
    Reads (bindingElement (grammar D)) (lexemes (Layout.pattern p)) (endsItem close) fun p' => p'.bare = p.bare := by
  have hplain : ∀ {p : Pattern}, Binds p → (lexemes (Layout.pattern p)).length ≤ D →
      Reads (bindingElement (grammar D)) (lexemes (Layout.pattern p)) (endsItem close) fun p' => p'.bare = p.bare := by
    intro p hp hD
    refine .bind_pure ((hp.inner hD).stop fun _ _ => rfl) fun p' hp' => ?_
    exact .eatPunct_not (fun k => isMark_of_endsItem hclose (by decide) rfl) (.pure hp')
  cases p with
  | assign p default =>
      have hlay : lexemes (Layout.pattern (.assign p default)) =
          lexemes (Layout.pattern p) ++ (Lexeme.mark .assign :: lexemes (Layout.expr default)) := by
        simp [Layout.pattern]
      rw [hlay] at hD ⊢
      rw [List.length_append, List.length_cons] at hD
      refine .bind (h.1.inner (by omega)) rfl fun p' hp' => .eatPunct ?_
      have hdefault := (h.2.assignable.inner (D := D) (by omega)).stop fun _ => stopsAssignment_of_endsItem hclose
      exact .bind_pure hdefault fun e' he' => .pure (by simp [hp', he'])
  | rest p => cases hpart
  | hole => cases hpart
  | _ => exact hplain h hD

theorem bindingOrRest_reads {close : Punct} (hclose : isListEnd close = true) {p : Pattern} {place : Place}
    (hlegible : p.Legible true .bind place) (h : BindingReadsBack p) (hhole : Render.Pattern.isHole p = false) {D : Nat}
    (hD : (lexemes (Layout.pattern p)).length ≤ D) :
    Reads (bindingOrRest (grammar D)) (lexemes (Layout.pattern p)) (endsItem close) fun p' => p'.bare = p.bare := by
  cases hpart : isPart p with
  | true =>
      have hstarts := pattern_starts_not_ellipsis p hlegible hpart
      exact .eatPunct_not hstarts.begins (bindingElement_reads hclose h hpart hD)
  | false =>
      cases p with
      | rest p =>
          refine .eatPunct (.bind_pure ((Binds.inner h (Nat.le_of_succ_le hD)).stop fun _ _ => rfl) fun p' hp' => ?_)
          exact .pure (by rw [Pattern.bare, Pattern.bare, hp'])
      | hole => cases hhole
      | _ => cases hpart

theorem barePatterns_eq {ps ps' : List Pattern} (h : List.Forall₂ (fun p p' => p'.bare = p.bare) ps ps') :
    barePatterns ps' = barePatterns ps := by
  induction h with
  | nil => rfl
  | cons hp _ ih => rw [barePatterns, barePatterns, hp, ih]

theorem array_binds {elements : List Pattern} (span : Span)
    (h : ∀ p ∈ elements, p.Legible true .bind .element ∧ BindingReadsBack p) : Binds (.array elements span) := by
  refine ⟨by rw [lexemes_arrayPattern]; exact List.cons_ne_nil _ _, fun D hD => ?_⟩
  rw [lexemes_arrayPattern] at hD ⊢
  simp only [List.length_cons, List.length_append, List.length_nil] at hD
  unfold bindingTarget
  refine .peek fun t kind _ _ => ?_
  simp only [show t.kind = .punct .openBracket from kind]
  refine .advance fun _ _ _ _ => .bound fun n hn => ?_
  rw [List.length_append] at hn
  have helements : Reads (separatedWithHoles .closeBracket .hole (bindingOrRest (grammar D)) n)
      (lexemes (commasWithHoles Layout.pattern Render.Pattern.isHole elements)) (·.isMark .closeBracket)
      (List.Forall₂ (fun p p' => p'.bare = p.bare) elements) := by
    refine separatedWithHoles_reads (by decide) (fun p hp hhole => ?_) (fun p hp hhole => ?_) (fun p hp hhole => ?_) n
      (by omega)
    · have hle := length_le_elements hp
      exact bindingOrRest_reads rfl (h p hp).1 (h p hp).2 hhole (by omega)
    · obtain ⟨l, ls, hls, hl⟩ := element_starts (h p hp).1 hhole
      simp only [endsItem, Bool.and_eq_true, Bool.not_eq_true', Bool.or_eq_false_iff] at hl
      exact ⟨l, ls, hls, hl.1.2.2, hl.1.1.1⟩
    · cases p <;> first | exact ⟨rfl, rfl⟩ | cases hhole
  refine .bind helements rfl fun ps' hps' => .expectPunct fun _ => .pure ?_
  rw [Pattern.bare, Pattern.bare, barePatterns_eq hps']

/-! ## Entries of object patterns -/

/-- An entry of an object pattern that is read back. -/
def PropReadsBack : PatternProp → Prop
  | .init k p _ => KeyReadsBack k ∧ BindingReadsBack p
  | .rest _ => True

/-- A short entry, with or without a default. -/
theorem patternProp_reads_short {id : Ident} {span : Span} {p : Pattern} (hname : Token.wordKind id.name = .identifier id.name)
    (hp : p = .ident ⟨id.name, span⟩ ∨ ∃ default, p = .assign (.ident ⟨id.name, span⟩) default) (h : BindingReadsBack p)
    {D : Nat} (hD : (lexemes (Layout.pattern p)).length ≤ D) :
    Reads (patternProp (grammar D)) (lexemes (Layout.pattern p)) (endsItem .closeBrace) fun p' =>
      barePatternProps [p'] = barePatternProps [.init (.name id) p true] := by
  have hword : ∀ {ls : List Lexeme} (mark : Punct), Begins (fun k => k.isMark mark == false) (endsItem .closeBrace)
      (.word id.name :: ls) := fun mark => beq_iff_eq.2 (isMark_wordKind id.name mark)
  have hkey : Reads (key (grammar D)) [.word id.name] (fun _ => true) fun k => ∃ id', k = .name id' ∧ id'.name = id.name := by
    refine .peek fun t kind _ _ => ?_
    simp only [show t.kind = .identifier id.name from kind.trans hname]
    exact .bind_pure (propertyName_reads id.name) fun id' hid => .pure ⟨id', rfl, hid⟩
  rcases hp with rfl | ⟨default, rfl⟩
  · refine .eatPunct_not (hword _) (.peek (l := .word id.name) fun t kind _ _ => ?_)
    refine .bind_pure (hkey.stop fun _ _ => rfl) ?_
    rintro _ ⟨id', rfl, hid⟩
    refine .eatPunct_not (fun k => isMark_of_endsItem rfl (by decide) rfl) ?_
    simp only [show t.kind = .identifier id.name from kind.trans hname]
    refine .eatPunct_not (fun k => isMark_of_endsItem rfl (by decide) rfl) (.pure ?_)
    simp [Ident.bare, hid]
  · have hlay : lexemes (Layout.pattern (.assign (.ident ⟨id.name, span⟩) default)) =
        [Lexeme.word id.name] ++ (Lexeme.mark .assign :: lexemes (Layout.expr default)) := by
      simp [Layout.pattern]
    rw [hlay] at hD ⊢
    simp only [List.length_append, List.length_cons] at hD
    refine .eatPunct_not (hword _) (.peek (l := .word id.name) fun t kind _ _ => ?_)
    refine Reads.bind hkey rfl ?_
    rintro _ ⟨id', rfl, hid⟩
    refine .eatPunct_not rfl ?_
    simp only [show t.kind = .identifier id.name from kind.trans hname]
    refine .eatPunct (.bind_pure ((h.2.assignable.inner (D := D) (by omega)).stop
      fun _ => stopsAssignment_of_endsItem rfl) fun e' he' => .pure ?_)
    simp [Ident.bare, hid, he']

theorem patternProp_reads {p : PatternProp} (hlegible : LegiblePatternProps true .bind [p]) (h : PropReadsBack p) {D : Nat}
    (hD : (lexemes (Layout.patternProp p)).length ≤ D) :
    Reads (patternProp (grammar D)) (lexemes (Layout.patternProp p)) (endsItem .closeBrace) fun p' =>
      barePatternProps [p'] = barePatternProps [p] := by
  match p with
  | .init k p true =>
      obtain ⟨⟨id, span, rfl, hname, hp⟩, -⟩ := hlegible.1 rfl
      exact patternProp_reads_short hname hp h.2 hD
  | .init k p false =>
      have hlay : lexemes (Layout.patternProp (.init k p false)) =
          lexemes (Layout.key k) ++ (Lexeme.mark .colon :: lexemes (Layout.pattern p)) := by
        simp [Layout.patternProp]
      rw [hlay] at hD ⊢
      rw [List.length_append, List.length_cons] at hD
      have hstarts : Starts (fun k => k.isMark .ellipsis == false) (Layout.key k) :=
        (key_starts k hlegible.2.1).mono fun k hk => (Bool.and_eq_true_iff.1 hk).1
      have hbegins : Begins (fun k => k.isMark .ellipsis == false) (endsItem .closeBrace)
          (lexemes (Layout.key k) ++ (Lexeme.mark .colon :: lexemes (Layout.pattern p))) :=
        begins_append (P := fun _ => true) hstarts.begins hstarts.ne_nil
      refine .eatPunct_not hbegins (.peekStop hbegins fun t _ => ?_)
      refine .bind (N := fun _ => true) (key_reads hlegible.2.1 h.1 (by omega)) rfl fun k' hk' => .eatPunct ?_
      refine .bind_pure (bindingElement_reads rfl h.2 (isPart_of_legible hlegible.2.2.1 rfl) (by omega)) fun p' hp' => .pure (by simp [hk', hp'])
  | .rest (.ident id) =>
      refine .eatPunct (.bind_pure (bindingName_reads hlegible.2.1) fun id' hid => .pure ?_)
      simp [Ident.bare, hid]
  | .rest (.array _ _) | .rest (.object _ _) | .rest (.assign _ _) | .rest (.rest _) | .rest (.member _) | .rest .hole =>
      cases hlegible.1 rfl

theorem barePatternProps_eq {ps ps' : List PatternProp}
    (h : List.Forall₂ (fun p p' => barePatternProps [p'] = barePatternProps [p]) ps ps') :
    barePatternProps ps' = barePatternProps ps := by
  induction h with
  | nil => rfl
  | @cons p p' ps ps' hp _ ih => rw [barePatternProps_cons p', barePatternProps_cons p, hp, ih]

theorem object_binds {props : List PatternProp} (span : Span)
    (h : ∀ p ∈ props, LegiblePatternProps true .bind [p] ∧ PropReadsBack p) : Binds (.object props span) := by
  refine ⟨by rw [lexemes_objectPattern]; exact List.cons_ne_nil _ _, fun D hD => ?_⟩
  rw [lexemes_objectPattern] at hD ⊢
  simp only [List.length_cons, List.length_append, List.length_nil] at hD
  unfold bindingTarget
  refine .peek fun t kind _ _ => ?_
  simp only [show t.kind = .punct .openBrace from kind]
  refine .advance fun _ _ _ _ => .bound fun n hn => ?_
  rw [List.length_append] at hn
  have hentries : Reads (separated .closeBrace (patternProp (grammar D)) n) (lexemes (commas (props.map Layout.patternProp)))
      (·.isMark .closeBrace) (List.Forall₂ (fun p p' => barePatternProps [p'] = barePatternProps [p]) props) := by
    refine separated_reads (by decide) (fun p hp => ?_) (fun p hp => ?_) n (by omega)
    · exact patternProp_reads (h p hp).1 (h p hp).2
        (Nat.le_trans (length_le_commas (List.mem_map_of_mem hp)) (by omega))
    · obtain ⟨l, ls, hls, hl⟩ := entry_starts (h p hp).1
      simp only [endsItem, Bool.not_eq_true', Bool.or_eq_false_iff] at hl
      exact ⟨l, ls, hls, hl.2⟩
  refine .bind hentries rfl fun ps' hps' => .expectPunct fun _ => .pure ?_
  rw [Pattern.bare, Pattern.bare, barePatternProps_eq hps']

/-! ## Arrow functions -/

/-- Statements between braces that are read back. -/
def BlockReadsBack (b : Block) : Prop :=
  ∀ D, (lexemes (Layout.block b)).length ≤ D + 1 →
    Reads (block (grammar D)) (lexemes (Layout.block b)) (fun _ => true) fun b' => b'.bare = b.bare

/-- The body of an arrow function that is read back. -/
def BodyReadsBack : ArrowBody → Prop
  | .expr e => ReadsBack e ∧ Starts startsExpr (Layout.expr e)
  | .block b => BlockReadsBack b

theorem params_reads {ps : List Pattern} (h : ∀ p ∈ ps, p.Legible true .bind .param ∧ BindingReadsBack p) {D : Nat}
    (hD : (lexemes (commas (ps.map Layout.pattern))).length ≤ D) :
    Reads (params (grammar D)) (lexemes (commas (ps.map Layout.pattern)) ++ [Lexeme.mark .closeParen]) P fun ps' =>
      barePatterns ps' = barePatterns ps := by
  refine .bound fun n hn => ?_
  rw [List.length_append] at hn
  have hhole : ∀ p ∈ ps, Render.Pattern.isHole p = false := by
    intro p hp
    have hlegible := (h p hp).1
    cases p <;> first | rfl | cases hlegible
  have hparams : Reads (separated .closeParen (bindingOrRest (grammar D)) n) (lexemes (commas (ps.map Layout.pattern)))
      (·.isMark .closeParen) (List.Forall₂ (fun p p' => p'.bare = p.bare) ps) := by
    refine separated_reads (by decide) (fun p hp => ?_) (fun p hp => ?_) n (by omega)
    · exact bindingOrRest_reads rfl (h p hp).1 (h p hp).2 (hhole p hp)
        (Nat.le_trans (length_le_commas (List.mem_map_of_mem hp)) hD)
    · obtain ⟨l, ls, hls, hl⟩ := element_starts (h p hp).1 (hhole p hp)
      simp only [endsItem, Bool.and_eq_true, Bool.not_eq_true', Bool.or_eq_false_iff] at hl
      exact ⟨l, ls, hls, hl.1.1.2⟩
  exact .bind hparams rfl fun ps' hps' => .expectPunct fun _ => .pure (barePatterns_eq hps')

/-- The lexemes of an arrow function without the parentheses around it. -/
def arrowLexemes (ps : List Pattern) (body : ArrowBody) (isAsync : Bool) : List Lexeme :=
  (if isAsync then [Lexeme.word "async"] else []) ++
    ((Lexeme.mark .openParen :: (lexemes (commas (ps.map Layout.pattern)) ++ [Lexeme.mark .closeParen])) ++
      (Lexeme.mark .arrow :: lexemes (Layout.arrowBody body)))

/-- The arrow behind the parameters is found. -/
theorem arrowAhead_true {ps : List Pattern} {body : ArrowBody} {isAsync : Bool}
    (hnested : Nested (lexemes (commas (ps.map Layout.pattern))) n) {s rest : Stream}
    (hs : Spells s (arrowLexemes ps body isAsync) rest) : arrowAhead s = .ok true := by
  have hparams : ∀ {s : Stream}, Spells s ((Lexeme.mark .openParen :: (lexemes (commas (ps.map Layout.pattern)) ++
      [Lexeme.mark .closeParen])) ++ (Lexeme.mark .arrow :: lexemes (Layout.arrowBody body))) rest →
      parametersAhead s = .ok true := by
    intro s hs
    obtain ⟨mid, hfirst, hmore⟩ := hs.split
    cases hmore with
    | @cons t _ _ _ _ kind _ line _ =>
        rw [parametersAhead_parens hnested hfirst (t := t) rfl, Token.isPunct_eq, kind, line]
        rfl
  cases isAsync with
  | false =>
      have hahead := hparams hs
      cases hs with
      | @cons t _ _ _ _ kind _ _ _ =>
          rw [arrowAhead_of_not (by rw [Token.isKeyword_eq, kind]; rfl)]
          exact hahead
  | true =>
      cases hs with
      | @cons t _ s _ _ kind _ _ more =>
          have hahead := hparams more
          have hkind : t.kind = .keyword .asyncWord := kind
          cases more with
          | @cons t' _ _ _ _ kind' _ line' _ =>
              rw [arrowAhead, Token.isKeyword_eq, hkind, if_pos (by decide)]
              show (if t'.newlineBefore then _ else _) = _
              rw [line', if_neg Bool.false_ne_true]
              simp only [show t'.kind = .punct .openParen from kind']
              exact hahead

theorem assignment_arrow {g : Grammar} {Q : Expr → Prop} (hahead : ∀ s rest, Spells s ls rest → arrowAhead s = .ok true)
    (h : Reads (arrow g) ls P Q) : Reads (assignment g) ls P Q := by
  intro s rest stop hs hrest
  obtain ⟨a, stop', hrun, ha⟩ := h s rest stop hs hrest
  refine ⟨a, stop', ?_, ha⟩
  rw [← hrun]
  show ((arrowAhead s >>= fun b => Except.ok (b, State.mk s stop)) >>= fun r => (if r.1 = true then arrow g else
    conditional g >>= assigned g) r.2) = _
  rw [hahead s rest hs]
  rfl

/-- The body of an arrow function. -/
theorem body_reads {body : ArrowBody} (h : BodyReadsBack body) {D : Nat}
    (hD : (lexemes (Layout.arrowBody body)).length ≤ D) {k : ArrowBody → Parser Expr} {Q : Expr → Prop}
    (hk : ∀ body', body'.bare = body.bare → Reads (k body') [] Kind.stopsAssignment Q) :
    Reads (atPunct .openBrace >>= fun b => if b = true then ArrowBody.block <$> block (grammar D) >>= k else
      ArrowBody.expr <$> (grammar D).assignment >>= k) (lexemes (Layout.arrowBody body)) Kind.stopsAssignment Q := by
  cases body with
  | expr e =>
      have hstarts := h.2.mono fun _ => isMark_of_startsExpr .openBrace (by decide) (by decide)
      refine .atPunct (b := false) hstarts.begins (.bind_pure (.map ?_) hk)
      exact (h.1.assignable.inner hD).mono fun e' he' => by rw [ArrowBody.bare, ArrowBody.bare, he']
  | block b =>
      have hbrace : Begins (fun k => k.isMark .openBrace == true) Kind.stopsAssignment (lexemes (Layout.block b)) := by
        obtain ⟨stmts, span⟩ := b
        rw [Layout.block, Layout.lexemes_braces]
        rfl
      refine .atPunct (b := true) hbrace (.bind_pure (.map ?_) hk)
      refine ((h D (Nat.le_succ_of_le hD)).stop fun _ _ => rfl).mono fun b' hb' => ?_
      rw [ArrowBody.bare, ArrowBody.bare, hb']

/-- An arrow function behind the word that may stand in front of it. -/
def arrowRest (g : Grammar) (start : Token) (isAsync : Bool) : Parser Expr := do
  let ps ←
    if ← eatPunct .openParen then params g
    else
      let id ← bindingName
      pure [.ident id]
  let _ ← expectPunct .arrow
  let body ←
    if ← atPunct .openBrace then ArrowBody.block <$> block g else ArrowBody.expr <$> g.assignment
  return .arrow ps body isAsync (← spanFrom start.span)

theorem arrowRest_reads {ps : List Pattern} {body : ArrowBody} (isAsync : Bool) (span : Span)
    (hps : ∀ p ∈ ps, p.Legible true .bind .param ∧ BindingReadsBack p) (hbody : BodyReadsBack body) {D : Nat}
    (hD : (arrowLexemes ps body false).length ≤ D + 1) (start : Token) :
    Reads (arrowRest (grammar D) start isAsync) (arrowLexemes ps body false) Kind.stopsAssignment fun e =>
      e.bare = (Expr.arrow ps body isAsync span).bare := by
  simp only [arrowLexemes, Bool.false_eq_true, if_false, List.nil_append, List.cons_append, List.length_cons,
    List.length_append] at hD ⊢
  refine .eatPunct (.bind (N := fun _ => true) (params_reads hps (by omega)) rfl fun ps' hps' => ?_)
  refine .expectPunct fun _ => body_reads hbody (by omega) fun body' hbody' => .spanFrom fun _ => .pure ?_
  rw [Expr.bare, Expr.bare, hps', hbody']

theorem arrow_reads {ps : List Pattern} {body : ArrowBody} (isAsync : Bool) (span : Span)
    (hps : ∀ p ∈ ps, p.Legible true .bind .param ∧ BindingReadsBack p) (hbody : BodyReadsBack body) {D : Nat}
    (hD : (arrowLexemes ps body isAsync).length ≤ D + 1) :
    Reads (arrow (grammar D)) (arrowLexemes ps body isAsync) Kind.stopsAssignment fun e =>
      e.bare = (Expr.arrow ps body isAsync span).bare := by
  cases isAsync with
  | false =>
      refine .peek fun start kind _ _ => ?_
      have hword : start.isKeyword .asyncWord = false := by
        rw [Token.isKeyword_eq, kind]
        rfl
      simp only [hword, Bool.false_eq_true, if_false]
      exact arrowRest_reads false span hps hbody hD start
  | true =>
      refine .peek fun start kind _ _ => ?_
      have hword : start.isKeyword .asyncWord = true := by
        rw [Token.isKeyword_eq, kind]
        rfl
      simp only [hword, if_true]
      refine .peekNext fun next kind' => ?_
      have hmark : next.isPunct .arrow = false := by
        rw [Token.isPunct_eq, kind']
        rfl
      simp only [hmark, Bool.false_eq_true, if_false]
      exact .advance fun _ _ _ _ => arrowRest_reads true span hps hbody (Nat.le_of_succ_le hD) start

end FieldScript.Parse
