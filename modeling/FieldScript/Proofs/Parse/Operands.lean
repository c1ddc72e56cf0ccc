import FieldScript.Proofs.Parse.Reads
import FieldScript.Proofs.Render.Nested

/-!
# Levels of expressions

What is read as an operand is read as an expression of every looser level, if what follows does not go on with it. An
operand is a chain of accesses and calls, so what is known of it is where it *leads*: to the links of the chain that
are left (`Leads`). From there on up:

* `Operand`: lexemes that lead to an expression at every sufficient depth of the grammar,
* `Unary`: with the operators in front,
* `Assignable`: up to assignments and arrow functions, which are told apart by looking ahead.

Parentheses turn every expression into an operand again (`Assignable.parens`).
-/

namespace FieldScript

open Token (Kind Lexeme Spells Stream Piece)
open Token.Piece (lexemes)

namespace Token.Kind

open Parse (unaryOp? updateOp? infixOp? assignOp?)

/-- Kinds of tokens that end a chain of accesses and calls. -/
def stopsChain : Kind → Bool
  | .punct .dot | .punct .optionalDot | .punct .openBracket | .punct .openParen | .template _ | .templateHead _ => false
  | _ => true

/-- Kinds of tokens that end an operand with the operators in front of it. -/
def stopsOperand (k : Kind) : Bool := k.stopsChain && (updateOp? k).isNone

/-- Kinds of tokens that end a row of infix operators. -/
def stopsInfix (k : Kind) : Bool := k.stopsOperand && (infixOp? k).isNone

/-- Kinds of tokens that a parameter is. -/
def isName : Kind → Bool
  | .identifier _ | .keyword .asyncWord => true
  | _ => false

/-- Kinds of tokens that end an assignment. -/
def stopsAssignment (k : Kind) : Bool :=
  k.stopsInfix && (assignOp? k).isNone && !k.isMark .question && !k.isMark .arrow && !k.isName

/-- Kinds of tokens that end an expression. -/
def stopsExpression (k : Kind) : Bool := k.stopsAssignment && !k.isMark .comma

/-- Kinds of tokens that an operand may start with: no operator is. -/
def startsOperand (k : Kind) : Bool := (unaryOp? k).isNone && !k.isWord .awaitWord && (updateOp? k).isNone

end Token.Kind

namespace Parse

variable {α β : Type} {g : Grammar} {ls ls' : List Lexeme} {P : Kind → Bool} {Q R : Expr → Prop} {n : Nat}

/-! ## Looking ahead for an arrow -/

/-- A stream that goes on neither with an arrow nor with parameters and an arrow. -/
def NoArrow (rest : Stream) : Prop :=
  parametersAhead rest = .ok false ∧ ∃ t, nth 0 rest = .ok t ∧ t.isPunct .arrow = false

/-- Lexemes that do not look like an arrow function unless what follows does. -/
def Plain (ls : List Lexeme) : Prop := ∀ s rest, Spells s ls rest → NoArrow rest → arrowAhead s = .ok false

/-- Kinds of tokens that neither are an arrow nor start parameters. -/
def endsArrow (k : Kind) : Bool := !k.isName && !k.isMark .openParen && !k.isMark .arrow

theorem parametersAhead_of_kind {t : Token} {rest : Stream} (hname : t.kind.isName = false)
    (hparen : t.kind.isMark .openParen = false) : parametersAhead (.cons t rest) = .ok false := by
  rw [parametersAhead]
  split <;> simp_all [Kind.isName, Kind.isMark]

theorem noArrow_of_stops {rest : Stream} (h : Stops endsArrow rest) : NoArrow rest := by
  obtain ⟨t, ht, hkind⟩ := h
  simp only [endsArrow, Bool.and_eq_true, Bool.not_eq_true'] at hkind
  refine ⟨?_, t, ht, hkind.2⟩
  cases rest with
  | cons t' rest =>
      cases ht
      exact parametersAhead_of_kind hkind.1.1 hkind.1.2
  | done t' => rfl
  | failed fault => cases ht

theorem endsArrow_of_stopsAssignment {k : Kind} (h : k.stopsAssignment = true) : endsArrow k = true := by
  simp only [Kind.stopsAssignment, Kind.stopsInfix, Kind.stopsOperand, Bool.and_eq_true, Bool.not_eq_true'] at h
  simp only [endsArrow, Bool.and_eq_true, Bool.not_eq_true']
  refine ⟨⟨h.2, ?_⟩, h.1.2⟩
  cases hmark : k.isMark .openParen with
  | false => rfl
  | true =>
      rw [Kind.eq_of_isMark hmark] at h
      simp [Kind.stopsChain] at h

theorem arrowAhead_of_not {t : Token} {rest : Stream} (h : t.isKeyword .asyncWord = false) :
    arrowAhead (.cons t rest) = parametersAhead (.cons t rest) := by
  rw [arrowAhead, h]
  rfl

/-- Lexemes that start with something that is neither a name nor a parenthesis. -/
theorem plain_of_first {l : Lexeme} (hname : l.kind.isName = false) (hparen : l.kind.isMark .openParen = false) :
    Plain (l :: ls) := by
  intro s rest hs _
  cases hs with
  | @cons t _ s _ _ kind _ _ _ =>
      rw [arrowAhead_of_not]
      · rw [← kind] at hname hparen
        exact parametersAhead_of_kind hname hparen
      · rw [Token.isKeyword_eq, kind]
        unfold Kind.isWord
        split
        · rename_i w hw
          rw [hw] at hname
          cases w <;> first | rfl | cases hname
        · rfl

/-- A name. -/
theorem plain_name {name : String} (h : IsName name) : Plain [.word name] := by
  intro s rest hs ⟨hparams, t', hnext, harrow⟩
  cases hs with
  | @cons t _ s _ _ kind _ _ more =>
      cases more
      rcases h.2 with hname | rfl
      · have hkind : t.kind = .identifier name := kind.trans hname
        rw [arrowAhead_of_not (by rw [Token.isKeyword_eq, hkind]; rfl), parametersAhead]
        simp [hkind, hnext, harrow, Except.map]
      · have hkind : t.kind = .keyword .asyncWord := kind
        rw [arrowAhead, Token.isKeyword_eq, hkind, if_pos (by decide), hnext]
        show (if t'.newlineBefore then _ else _) = _
        split
        · rfl
        · split
          · exact hparams
          · exact hparams
          · rename_i hk
            rw [Token.isPunct_eq, hk] at harrow
            cases harrow
          · rfl

/-- What follows a parenthesis that is closed. -/
theorem parametersAhead_parens (h : Nested ls n) {s rest : Stream}
    (hs : Spells s (.mark .openParen :: (ls ++ [Lexeme.mark .closeParen])) rest) {t : Token} (ht : nth 0 rest = .ok t) :
    parametersAhead s = .ok (t.isPunct .arrow && !t.newlineBefore) := by
  cases hs with
  | @cons first _ s _ _ kind _ _ more =>
      obtain ⟨mid, hinner, hlast⟩ := more.split
      cases hlast with
      | @cons last _ _ _ _ kind' _ _ more' =>
          cases more'
          have hkind : first.kind = .punct .openParen := kind
          have hkind' : last.kind = .punct .closeParen := kind'
          have hafter : afterParens 0 (.cons first s) = .ok (some rest) := by
            rw [(Nested.afterParens_cons _ _ _).1 (by rw [hkind]; rfl), h.afterParens_eq hinner, afterParens, hkind']
            rfl
          simp only [parametersAhead, hkind, hafter]
          show (nth 0 rest >>= _) = _
          rw [ht]
          rfl

/-- Parentheses around something. -/
theorem plain_parens (h : Nested ls n) : Plain (.mark .openParen :: (ls ++ [Lexeme.mark .closeParen])) := by
  intro s rest hs ⟨_, t, hnext, harrow⟩
  have hparams := parametersAhead_parens h hs hnext
  cases hs with
  | @cons first _ s _ _ kind _ _ _ =>
      have hkind : first.kind = .punct .openParen := kind
      rw [arrowAhead_of_not (by rw [Token.isKeyword_eq, hkind]; rfl), hparams, harrow]
      rfl

/-- Something plain with more behind it that does not look like parameters. -/
theorem Plain.append (h : Plain ls) (hmore : ∀ s rest, Spells s ls' rest → NoArrow rest → NoArrow s) : Plain (ls ++ ls') := by
  intro s rest hs hrest
  obtain ⟨mid, hfirst, hlast⟩ := hs.split
  exact h s mid hfirst (hmore mid rest hlast hrest)

theorem noArrow_of_first {l : Lexeme} (hl : endsArrow l.kind = true) (s rest : Stream) (hs : Spells s (l :: ls) rest) :
    NoArrow s := by
  cases hs with
  | @cons t _ s _ _ kind _ _ _ => exact noArrow_of_stops ⟨t, rfl, by rwa [kind]⟩

/-! ## Chains -/

/-- An expression without operators and the links behind it. -/
def linked (g : Grammar) : Parser Expr := do
  let e ← primary g
  let n ← bound
  chain g e n

/-- Lexemes behind which a chain goes on with an expression as told. -/
def Leads (g : Grammar) (ls : List Lexeme) (Q : Expr → Prop) : Prop :=
  ∀ (β : Type) (k : Expr → Parser β) (ls' : List Lexeme) (P : Kind → Bool) (R : β → Prop),
    (∀ e n, Q e → ls'.length < n → Reads (chain g e n >>= k) ls' P R) → Reads (linked g >>= k) (ls ++ ls') P R

theorem begins_any : Begins (fun _ => true) P ls := by
  cases ls <;> simp [Begins]

theorem Leads.of_primary (h : Reads (primary g) ls (fun _ => true) Q) : Leads g ls Q := by
  intro β k ls' P R hk
  simp only [linked, bind_assoc]
  exact h.bind begins_any fun e he => .bound fun n hn => hk e n he hn

/-- A chain ends at a token that is no link. -/
theorem chain_reads {k : Expr → Parser β} {R : β → Prop} {e : Expr} {n : Nat} (hn : 0 < n)
    (hstop : Begins Kind.stopsChain P ls) (hk : Reads (k e) ls P R) : Reads (chain g e n >>= k) ls P R := by
  obtain ⟨n, rfl⟩ : ∃ m, n = m + 1 := ⟨n - 1, by omega⟩
  rw [chain, bind_assoc]
  refine .peekStop hstop fun t ht => ?_
  split
  case h_7 => rwa [pure_bind]
  all_goals
    rename_i hkind
    rw [hkind] at ht
    cases ht

/-- Lexemes of one link, behind which the chain goes on. -/
def Links (g : Grammar) (ls : List Lexeme) (Q R : Expr → Prop) : Prop :=
  ∀ (β : Type) (k : Expr → Parser β) (ls' : List Lexeme) (P : Kind → Bool) (S : β → Prop) (e : Expr) (n : Nat), Q e →
    (∀ e', R e' → Reads (chain g e' n >>= k) ls' P S) → Reads (chain g e (n + 1) >>= k) (ls ++ ls') P S

/-- One more link. -/
theorem Leads.append (h : Leads g ls Q) (hlink : Links g ls' Q R) (hne : ls' ≠ []) : Leads g (ls ++ ls') R := by
  intro β k more P S hk
  rw [List.append_assoc]
  refine h β k _ P S fun e n he hn => ?_
  obtain ⟨n, rfl⟩ : ∃ m, n = m + 1 := ⟨n - 1, by omega⟩
  refine hlink β k more P S e n he fun e' he' => hk e' n he' ?_
  have hpos := List.length_pos_iff.2 hne
  rw [List.length_append] at hn
  omega

theorem isMark_wordKind (name : String) (mark : Punct) : (Token.wordKind name).isMark mark = false := by
  rcases Token.wordKind_cases name with ⟨k, hkind, -⟩ | hkind | hkind <;> rw [hkind] <;> rfl

/-- An access by name. -/
theorem links_name (name : String) (optional : Bool)
    (hQ : ∀ o id span, Q o → id.name = name → R (.member o (.name id) optional span)) :
    Links g [.mark (if optional then .optionalDot else .dot), .word name] Q R := by
  intro β k ls' P S e n he hk
  have hname : ∀ {id : Ident}, id.name = name → Reads (member e (.name id) optional >>= fun e' => chain g e' n >>= k) ls' P S := by
    intro id hid
    unfold member
    rw [bind_assoc]
    exact .spanFrom fun span => by
      rw [pure_bind]
      exact hk _ (hQ e id span he hid)
  show Reads ((peek >>= _) >>= _) _ _ _
  rw [bind_assoc]
  cases optional with
  | false =>
      refine .peek fun t kind _ _ => ?_
      simp only [show t.kind = .punct .dot from kind, bind_assoc]
      refine .advance fun _ _ _ _ => ?_
      exact Reads.bind (propertyName_reads name) begins_any fun id hid => hname hid
  | true =>
      refine .peek fun t kind _ _ => ?_
      simp only [show t.kind = .punct .optionalDot from kind, bind_assoc]
      have hword : ∀ mark, Begins (fun k => k.isMark mark == false) P (.word name :: ls') :=
        fun mark => beq_iff_eq.2 (isMark_wordKind name mark)
      refine .advance fun _ _ _ _ => .atPunct (b := false) (hword _) (.eatPunct_not (hword _) ?_)
      simp only [Bool.false_eq_true, if_false, bind_assoc]
      exact Reads.bind (propertyName_reads name) begins_any fun id hid => hname hid

theorem computedMember_reads {o : Expr} {optional : Bool} (h : Reads (expression g) ls Kind.stopsExpression Q) :
    Reads (computedMember g o optional) (ls ++ [Lexeme.mark .closeBracket]) P fun e =>
      ∃ k span, Q k ∧ e = .member o (.computed k) optional span := by
  refine .bind h rfl fun k hk => .expectPunct fun _ => ?_
  exact .spanFrom fun span => .pure ⟨k, span, hk, rfl⟩

/-- An access by a computed key. -/
theorem links_computed {K : Expr → Prop} (optional : Bool) (h : Reads (expression g) ls Kind.stopsExpression K)
    (hQ : ∀ o k span, Q o → K k → R (.member o (.computed k) optional span)) :
    Links g ((if optional then [Lexeme.mark .optionalDot] else []) ++
      (.mark .openBracket :: (ls ++ [Lexeme.mark .closeBracket]))) Q R := by
  intro β k ls' P S e n he hk
  have hmember : Reads (computedMember g e optional >>= fun e' => chain g e' n >>= k)
      ((ls ++ [Lexeme.mark .closeBracket]) ++ ls') P S := by
    refine .bind (computedMember_reads (P := fun _ => true) h) begins_any ?_
    rintro _ ⟨key, span, hkey, rfl⟩
    exact hk _ (hQ e key span he hkey)
  show Reads ((peek >>= _) >>= _) _ _ _
  rw [bind_assoc]
  cases optional with
  | false =>
      refine .peek fun t kind _ _ => ?_
      simp only [show t.kind = .punct .openBracket from kind, bind_assoc]
      exact .advance fun _ _ _ _ => hmember
  | true =>
      refine .peek fun t kind _ _ => ?_
      simp only [show t.kind = .punct .optionalDot from kind, bind_assoc]
      refine .advance fun _ _ _ _ => .atPunct (b := false) rfl (.eatPunct ?_)
      simp only [Bool.false_eq_true, if_false, if_true, bind_assoc]
      exact hmember

/-- A call. -/
theorem links_call {A : List Item → Prop} (optional : Bool)
    (h : ∀ n, ls.length < n → Reads (separated .closeParen (item g) n) ls (·.isMark .closeParen) A)
    (hQ : ∀ callee args span, Q callee → A args → R (.call callee args optional span)) :
    Links g ((if optional then [Lexeme.mark .optionalDot] else []) ++
      (.mark .openParen :: (ls ++ [Lexeme.mark .closeParen]))) Q R := by
  intro β k ls' P S e n he hk
  have hcall : Reads (call g e optional >>= fun e' => chain g e' n >>= k)
      (.mark .openParen :: (ls ++ (Lexeme.mark .closeParen :: ls'))) P S := by
    unfold call
    simp only [bind_assoc, pure_bind]
    refine .expectPunct fun _ => .bound fun m hm => ?_
    refine .bind (h m (by rw [List.length_append] at hm; omega)) rfl fun args hargs => .expectPunct fun _ => ?_
    exact .spanFrom fun span => hk _ (hQ e args span he hargs)
  show Reads ((peek >>= _) >>= _) _ _ _
  rw [bind_assoc]
  cases optional with
  | false =>
      simp only [Bool.false_eq_true, if_false, List.nil_append, List.cons_append, List.append_assoc]
      refine .peek fun t kind _ _ => ?_
      simp only [show t.kind = .punct .openParen from kind, bind_assoc]
      exact hcall
  | true =>
      simp only [if_true, List.cons_append, List.nil_append, List.append_assoc]
      refine .peek fun t kind _ _ => ?_
      simp only [show t.kind = .punct .optionalDot from kind, bind_assoc]
      refine .advance fun _ _ _ _ => .atPunct (b := true) rfl (.eatPunct_not rfl ?_)
      simp only [if_true, bind_assoc]
      exact hcall

/-! ## Operators behind an operand -/

/-- A stepping operator behind an operand, or none. -/
def stepped (e : Expr) : Parser Expr := do
  let t ← peek
  match updateOp? t.kind with
  | some op =>
    if t.newlineBefore then return e
    else
      let _ ← advance
      let target ← toSimpleTarget e
      return .update op false target (target.span.merge t.span)
  | none => return e

theorem suffixed_eq (g : Grammar) : suffixed g = linked g >>= stepped := by
  simp only [suffixed, linked, bind_assoc]
  rfl

theorem updateOp?_lexeme (op : UpdateOp) : updateOp? op.lexeme.kind = some op := by
  cases op <;> rfl

theorem stopsOperand_cases {k : Kind} (h : k.stopsOperand = true) : k.stopsChain = true ∧ updateOp? k = none := by
  simpa [Kind.stopsOperand] using h

theorem Leads.suffixed (h : Leads g ls Q) : Reads (suffixed g) ls Kind.stopsOperand Q := by
  rw [suffixed_eq, ← List.append_nil ls]
  refine h _ stepped [] _ Q fun e n he hn => chain_reads hn (fun k hk => (stopsOperand_cases hk).1) ?_
  refine .peekStop (N := fun k => k.stopsOperand) (fun k hk => hk) fun t ht => ?_
  simp only [(stopsOperand_cases ht).2]
  exact .pure he

/-- An operand with a stepping operator behind it. -/
theorem Leads.steps {T : Pattern → Prop} (h : Leads g ls fun e => ∃ p, toSimpleTarget e = .ok p ∧ T p)
    (op : UpdateOp) (hR : ∀ p span, T p → R (.update op false p span)) :
    Reads (Parse.suffixed g) (ls ++ [op.lexeme]) P R := by
  rw [suffixed_eq]
  refine h _ stepped _ P R fun e n he hn => chain_reads (by omega) (by cases op <;> rfl) ?_
  refine .peek fun t kind _ line => ?_
  simp only [kind, updateOp?_lexeme, line, Bool.false_eq_true, if_false]
  obtain ⟨p, hconvert, hp⟩ := he
  exact .advance fun _ _ _ _ => .lift hconvert (.pure (hR p _ hp))

/-! ## Levels -/

/-- Lexemes that lead to an expression. -/
structure Operand (ls : List Lexeme) (Q : Expr → Prop) : Prop where
  starts : ∃ l more, ls = l :: more ∧ l.kind.startsOperand = true
  leads : ∀ D, ls.length ≤ D + 1 → Leads (grammar D) ls Q
  plain : Plain ls

/-- Lexemes that are an operand with the operators in front of it. -/
structure Unary (ls : List Lexeme) (Q : Expr → Prop) : Prop where
  ne_nil : ls ≠ []
  reads : ∀ D, ls.length ≤ D + 1 → Reads (unary (grammar D)) ls Kind.stopsOperand Q
  plain : Plain ls

/-- Lexemes that are an assignment, an arrow function or an expression that binds tighter. -/
structure Assignable (ls : List Lexeme) (Q : Expr → Prop) : Prop where
  ne_nil : ls ≠ []
  reads : ∀ D, ls.length ≤ D + 1 → Reads (assignment (grammar D)) ls Kind.stopsAssignment Q

theorem Operand.mono (h : Operand ls Q) (himp : ∀ e, Q e → R e) : Operand ls R :=
  ⟨h.starts, fun D hD β k ls' P S hk => h.leads D hD β k ls' P S fun e n he hn => hk e n (himp e he) hn, h.plain⟩

theorem Operand.unary (h : Operand ls Q) : Unary ls Q := by
  obtain ⟨l, more, rfl, hl⟩ := h.starts
  simp only [Kind.startsOperand, Bool.and_eq_true, Option.isNone_iff_eq_none, Bool.not_eq_true'] at hl
  refine ⟨List.cons_ne_nil l more, fun D hD => ?_, h.plain⟩
  unfold Parse.unary
  refine .peek fun t kind _ _ => ?_
  simp only [kind, hl, Token.isKeyword_eq, Bool.false_eq_true, if_false]
  exact Leads.suffixed (h.leads D hD)

/-- A stepping operator behind an operand. -/
theorem Operand.steps {T : Pattern → Prop} (h : Operand ls fun e => ∃ p, toSimpleTarget e = .ok p ∧ T p) (op : UpdateOp)
    (hR : ∀ p span, T p → R (.update op false p span)) : Unary (ls ++ [op.lexeme]) R := by
  have hplain : Plain (ls ++ [op.lexeme]) :=
    h.plain.append fun s rest hs _ => noArrow_of_first (by cases op <;> rfl) s rest hs
  obtain ⟨l, more, rfl, hl⟩ := h.starts
  simp only [Kind.startsOperand, Bool.and_eq_true, Option.isNone_iff_eq_none, Bool.not_eq_true'] at hl
  refine ⟨by simp, fun D hD => ?_, hplain⟩
  rw [List.length_append] at hD
  unfold Parse.unary
  refine .peek fun t kind _ _ => ?_
  simp only [kind, hl, Token.isKeyword_eq, Bool.false_eq_true, if_false]
  exact Leads.steps (h.leads D (by omega)) op hR

/-- One level further down there are tokens left. -/
theorem exists_depth {D : Nat} (hne : ls ≠ []) (hD : ls.length ≤ D) : ∃ D', D = D' + 1 := by
  have hpos := List.length_pos_iff.2 hne
  exact ⟨D - 1, by omega⟩

theorem Unary.inner (h : Unary ls Q) {D : Nat} (hD : ls.length ≤ D) :
    Reads (grammar D).unary ls Kind.stopsOperand Q := by
  obtain ⟨D, rfl⟩ := exists_depth h.ne_nil hD
  exact h.reads D hD

theorem Assignable.inner (h : Assignable ls Q) {D : Nat} (hD : ls.length ≤ D) :
    Reads (grammar D).assignment ls Kind.stopsAssignment Q := by
  obtain ⟨D, rfl⟩ := exists_depth h.ne_nil hD
  exact h.reads D hD

/-! ## Operators in front of an operand -/

theorem unaryOp?_lexeme (op : UnaryOp) : unaryOp? op.lexeme.kind = some op := by
  cases op <;> rfl

theorem Unary.operator (h : Unary ls Q) (op : UnaryOp) (hR : ∀ e span, Q e → R (.unary op e span)) :
    Unary (op.lexeme :: ls) R := by
  refine ⟨nofun, fun D hD => ?_, plain_of_first (by cases op <;> rfl) (by cases op <;> rfl)⟩
  unfold Parse.unary
  refine .peek fun t kind _ _ => ?_
  simp only [kind, unaryOp?_lexeme]
  exact .advance fun _ _ _ _ => .bind_pure (h.inner (by simpa using hD)) fun e he => .pure (hR e _ he)

theorem Unary.await (h : Unary ls Q) (hR : ∀ e span, Q e → R (.await e span)) : Unary (.word "await" :: ls) R := by
  refine ⟨nofun, fun D hD => ?_, plain_of_first rfl rfl⟩
  unfold Parse.unary
  refine .peek fun t kind _ _ => ?_
  simp only [show t.kind = .keyword .awaitWord from kind, Token.isKeyword_eq]
  exact .advance fun _ _ _ _ => .bind_pure (h.inner (by simpa using hD)) fun e he => .pure (hR e _ he)

theorem Unary.step {T : Pattern → Prop} (h : Unary ls fun e => ∃ p, toSimpleTarget e = .ok p ∧ T p) (op : UpdateOp)
    (hR : ∀ p span, T p → R (.update op true p span)) : Unary (op.lexeme :: ls) R := by
  refine ⟨nofun, fun D hD => ?_, plain_of_first (by cases op <;> rfl) (by cases op <;> rfl)⟩
  unfold Parse.unary
  refine .peek fun t kind _ _ => ?_
  have hunary : unaryOp? op.lexeme.kind = none := by cases op <;> rfl
  have hawait : op.lexeme.kind.isWord .awaitWord = false := by cases op <;> rfl
  simp only [kind, hunary, Token.isKeyword_eq, hawait, updateOp?_lexeme, Bool.false_eq_true, if_false]
  refine .advance fun _ _ _ _ => .bind_pure (h.inner (by simpa using hD)) fun e he => ?_
  obtain ⟨p, hconvert, hp⟩ := he
  exact .lift hconvert (.pure (hR p _ hp))

/-! ## Infix operators and conditionals -/

theorem stopsInfix_cases {k : Kind} (h : k.stopsInfix = true) : k.stopsOperand = true ∧ infixOp? k = none := by
  simpa [Kind.stopsInfix] using h

theorem infixFrom_reads {least n : Nat} {e : Expr} (hn : 0 < n) (he : Q e) :
    Reads (infixFrom g least e n) [] Kind.stopsInfix Q := by
  obtain ⟨n, rfl⟩ : ∃ m, n = m + 1 := ⟨n - 1, by omega⟩
  refine .peekStop (N := Kind.stopsInfix) (fun k hk => hk) fun t ht => ?_
  simp only [(stopsInfix_cases ht).2]
  exact .pure he

theorem Unary.binary (h : Unary ls Q) {D : Nat} (hD : ls.length ≤ D + 1) (least : Nat) :
    Reads (binary (grammar D) least) ls Kind.stopsInfix Q := by
  refine .bind_pure ((h.reads D hD).stop fun k hk => (stopsInfix_cases hk).1) fun e he => ?_
  exact .bound fun n hn => infixFrom_reads (by simpa using hn) he

theorem precedence_pos (op : InfixOp) : ¬ op.precedence < 1 := by
  cases op with
  | binary op => cases op <;> decide
  | logical op => cases op <;> decide

/-- Two operands with an infix operator between them. -/
theorem binary_reads {A B : Expr → Prop} {l : Lexeme} {op : InfixOp} (ha : Unary ls A) (hb : Unary ls' B)
    (hop : infixOp? l.kind = some op) (hl : l.kind.stopsOperand = true)
    (hR : ∀ a b, A a → B b → R (op.apply a b)) {D : Nat} (hD : (ls ++ l :: ls').length ≤ D + 1) :
    Reads (Parse.binary (grammar D) 1) (ls ++ l :: ls') Kind.stopsInfix R := by
  rw [List.length_append, List.length_cons] at hD
  have hpos := List.length_pos_iff.2 ha.ne_nil
  obtain ⟨D, rfl⟩ := exists_depth (D := D) hb.ne_nil (by omega)
  refine .bind (ha.reads _ (by omega)) hl fun a ha' => .bound fun n hn => ?_
  obtain ⟨n, rfl⟩ : ∃ m, n = m + 1 := ⟨n - 1, by omega⟩
  refine .peek fun t kind _ _ => ?_
  simp only [kind, hop, precedence_pos, if_false]
  refine .advance fun _ _ _ _ => .bind_pure (hb.binary (by omega) op.rightPrecedence) fun b hb' => ?_
  rw [List.length_cons] at hn
  exact infixFrom_reads (by omega) (hR a b ha' hb')

theorem stopsAssignment_cases {k : Kind} (h : k.stopsAssignment = true) :
    k.stopsInfix = true ∧ assignOp? k = none ∧ k.isMark .question = false ∧ endsArrow k = true := by
  have harrow := endsArrow_of_stopsAssignment h
  simp only [Kind.stopsAssignment, Bool.and_eq_true, Bool.not_eq_true', Option.isNone_iff_eq_none] at h
  exact ⟨h.1.1.1.1, h.1.1.1.2, h.1.1.2, harrow⟩

/-- An expression without a question mark behind it. -/
theorem conditional_reads (h : Reads (binary g 1) ls Kind.stopsInfix Q)
    (hP : ∀ k, P k = true → k.stopsInfix = true ∧ k.isMark .question = false) : Reads (conditional g) ls P Q := by
  refine .bind_pure (h.stop fun k hk => (hP k hk).1) fun e he => ?_
  exact .eatPunct_not (fun k hk => beq_iff_eq.2 (hP k hk).2) (.pure he)

/-! ## Assignments -/

/-- An assignment operator behind an expression, or none. -/
def assigned (g : Grammar) (left : Expr) : Parser Expr := do
  match assignOp? (← peek).kind with
  | none => return left
  | some op =>
    let target ← if op = .assign then toPattern left else toSimpleTarget left
    let _ ← advance
    let value ← g.assignment
    return .assign op target value (target.span.merge value.span)

theorem assignment_plain (hplain : ∀ s rest, Spells s ls rest → Stops P rest → arrowAhead s = .ok false)
    (h : Reads (conditional g >>= assigned g) ls P Q) : Reads (assignment g) ls P Q := by
  intro s rest stop hs hrest
  obtain ⟨a, stop', hrun, ha⟩ := h s rest stop hs hrest
  refine ⟨a, stop', ?_, ha⟩
  rw [← hrun]
  show ((arrowAhead s >>= fun b => Except.ok (b, State.mk s stop)) >>= fun r => (if r.1 = true then arrow g else
    conditional g >>= assigned g) r.2) = _
  rw [hplain s rest hs hrest]
  rfl

theorem Plain.stops (h : Plain ls) (hP : ∀ k, P k = true → endsArrow k = true) (s rest : Stream) (hs : Spells s ls rest)
    (hrest : Stops P rest) : arrowAhead s = .ok false := by
  obtain ⟨t, ht, hkind⟩ := hrest
  exact h s rest hs (noArrow_of_stops ⟨t, ht, hP _ hkind⟩)

theorem assigned_none {e : Expr} (he : Q e) : Reads (assigned g e) [] Kind.stopsAssignment Q := by
  refine .peekStop (N := Kind.stopsAssignment) (fun k hk => hk) fun t ht => ?_
  simp only [(stopsAssignment_cases ht).2.1]
  exact .pure he

/-- What is read without an assignment operator. -/
theorem Assignable.of_binary (hne : ls ≠ []) (hplain : Plain ls)
    (h : ∀ D, ls.length ≤ D + 1 → Reads (Parse.binary (grammar D) 1) ls Kind.stopsInfix Q) : Assignable ls Q := by
  refine ⟨hne, fun D hD => assignment_plain (hplain.stops fun k hk => (stopsAssignment_cases hk).2.2.2) ?_⟩
  refine .bind_pure (conditional_reads (h D hD) fun k hk => ?_) fun e he => assigned_none he
  have hcases := stopsAssignment_cases hk
  exact ⟨hcases.1, hcases.2.2.1⟩

theorem Unary.assignable (h : Unary ls Q) : Assignable ls Q :=
  .of_binary h.ne_nil h.plain fun _ hD => h.binary hD 1

/-- A conditional. -/
theorem Unary.conditional {lt ly ln : List Lexeme} {T Y N : Expr → Prop} (ht : Unary lt T) (hy : Assignable ly Y)
    (hn : Assignable ln N) (hR : ∀ t y n span, T t → Y y → N n → R (.conditional t y n span)) :
    Assignable (lt ++ (Lexeme.mark .question :: (ly ++ (Lexeme.mark .colon :: ln)))) R := by
  have hplain : Plain (lt ++ (Lexeme.mark .question :: (ly ++ (Lexeme.mark .colon :: ln)))) :=
    ht.plain.append fun s rest hs _ => noArrow_of_first (l := .mark .question) rfl s rest hs
  refine ⟨by simp, fun D hD => ?_⟩
  simp only [List.length_append, List.length_cons] at hD
  refine assignment_plain (hplain.stops fun k hk => (stopsAssignment_cases hk).2.2.2) ?_
  rw [← List.append_nil (lt ++ _)]
  refine .bind ?_ (N := Kind.stopsAssignment) (fun k hk => hk) fun e he => assigned_none he
  refine .bind (ht.binary (by omega) 1) rfl fun t ht' => .eatPunct ?_
  refine .bind (hy.inner (by omega)) rfl fun y hy' => .expectPunct fun _ => ?_
  exact .bind_pure (hn.inner (by omega)) fun n hn' => .pure (hR t y n _ ht' hy' hn')

theorem assignOp?_lexeme {op : AssignOp} (h : op.punct?.isSome = true) : assignOp? op.lexeme.kind = some op := by
  unfold AssignOp.lexeme
  unfold AssignOp.punct? at h ⊢
  split at h <;> first | rfl | cases h

theorem stopsInfix_assignOp (op : AssignOp) :
    op.lexeme.kind.stopsInfix = true ∧ op.lexeme.kind.isMark .question = false ∧ endsArrow op.lexeme.kind = true := by
  unfold AssignOp.lexeme AssignOp.punct?
  split <;> decide

/-- An assignment. -/
theorem Unary.assign {V : Expr → Prop} {T : Pattern → Prop} {op : AssignOp} (hop : op.punct?.isSome = true)
    (ht : Unary ls fun e => ∃ p, (if op = .assign then toPattern e else toSimpleTarget e) = .ok p ∧ T p)
    (hv : Assignable ls' V) (hR : ∀ p v span, T p → V v → R (.assign op p v span)) :
    Assignable (ls ++ op.lexeme :: ls') R := by
  obtain ⟨hstops, hquestion, harrow⟩ := stopsInfix_assignOp op
  have hplain : Plain (ls ++ op.lexeme :: ls') :=
    ht.plain.append fun s rest hs _ => noArrow_of_first harrow s rest hs
  refine ⟨by simp, fun D hD => assignment_plain (hplain.stops fun k hk => (stopsAssignment_cases hk).2.2.2) ?_⟩
  rw [List.length_append, List.length_cons] at hD
  have htarget : Reads (Parse.conditional (grammar D)) ls
      (fun k => k.stopsInfix && !k.isMark .question) _ :=
    conditional_reads (ht.binary (by omega) 1) fun k hk => by simpa using hk
  refine .bind htarget (by simp [Begins, hstops, hquestion]) fun e he => .peek fun t kind _ _ => ?_
  simp only [kind, assignOp?_lexeme hop]
  obtain ⟨p, hconvert, hp⟩ := he
  split at hconvert
  · rw [if_pos ‹_›]
    refine .lift hconvert (.advance fun _ _ _ _ => ?_)
    exact .bind_pure (hv.inner (by omega)) fun v hv' => .pure (hR p v _ hp hv')
  · rw [if_neg ‹_›]
    refine .lift hconvert (.advance fun _ _ _ _ => ?_)
    exact .bind_pure (hv.inner (by omega)) fun v hv' => .pure (hR p v _ hp hv')

/-! ## Expressions in other syntax -/

theorem stopsExpression_cases {k : Kind} (h : k.stopsExpression = true) :
    k.stopsAssignment = true ∧ k.isMark .comma = false := by
  simpa [Kind.stopsExpression] using h

/-- A single expression where several might stand. -/
theorem sequence_reads {first : Parser Expr} (h : Reads first ls Kind.stopsAssignment Q) :
    Reads (sequence g first) ls Kind.stopsExpression Q := by
  refine .bind_pure (h.stop fun k hk => (stopsExpression_cases hk).1) fun e he => ?_
  exact .atPunct (b := false) (fun k hk => beq_iff_eq.2 (stopsExpression_cases hk).2) (.pure he)

theorem Assignable.expression (h : Assignable ls Q) {D : Nat} (hD : ls.length ≤ D) :
    Reads (expression (grammar D)) ls Kind.stopsExpression Q := sequence_reads (h.inner hD)

/-- Parentheses around what an expression is read from. -/
theorem Operand.parens {m : Nat} (hnested : Nested ls m)
    (h : ∀ D, ls.length ≤ D → Reads (expression (grammar D)) ls Kind.stopsExpression Q) :
    Operand (.mark .openParen :: (ls ++ [Lexeme.mark .closeParen])) Q := by
  refine ⟨⟨_, _, rfl, rfl⟩, fun D hD => .of_primary ?_, plain_parens hnested⟩
  simp only [List.length_cons, List.length_append, List.length_nil] at hD
  unfold primary
  refine .peek fun t kind _ _ => ?_
  simp only [show t.kind = .punct .openParen from kind]
  refine .advance fun _ _ _ _ => .bind (h D (by omega)) rfl fun e he => ?_
  exact .expectPunct fun _ => .pure he

theorem Assignable.parens {m : Nat} (h : Assignable ls Q) (hnested : Nested ls m) :
    Operand (.mark .openParen :: (ls ++ [Lexeme.mark .closeParen])) Q := .parens hnested fun _ hD => h.expression hD

/-- One more link behind an operand. -/
theorem Operand.link (h : Operand ls Q) (hlink : ∀ D, (ls ++ ls').length ≤ D + 1 → Links (grammar D) ls' Q R)
    (hne : ls' ≠ []) (hquiet : ∀ s rest, Spells s ls' rest → NoArrow rest → NoArrow s) : Operand (ls ++ ls') R := by
  obtain ⟨l, more, hl, hstart⟩ := h.starts
  refine ⟨⟨l, more ++ ls', by rw [hl]; rfl, hstart⟩, fun D hD => ?_, h.plain.append hquiet⟩
  have hlength := hD
  rw [List.length_append] at hlength
  exact Leads.append (h.leads D (by omega)) (hlink D hD) hne

/-! ## Several expressions -/

theorem moreAssignments_reads {es : List Expr} {lay : Expr → List Piece} {S : Expr → Expr → Prop} {D : Nat}
    (h : ∀ e ∈ es, Assignable (lexemes (lay e)) (S e)) (hD : ∀ e ∈ es, (lexemes (lay e)).length ≤ D) (n : Nat)
    (hn : (es.flatMap fun e => .mark .comma :: lexemes (lay e)).length < n) :
    Reads (moreAssignments (grammar D) n) (es.flatMap fun e => .mark .comma :: lexemes (lay e)) Kind.stopsExpression
      (List.Forall₂ S es) := by
  induction es generalizing n with
  | nil =>
      obtain ⟨n, rfl⟩ : ∃ m, n = m + 1 := ⟨n - 1, by omega⟩
      exact .eatPunct_not (fun k hk => beq_iff_eq.2 (stopsExpression_cases hk).2) (.pure .nil)
  | cons e es ih =>
      obtain ⟨n, rfl⟩ : ∃ m, n = m + 1 := ⟨n - 1, by omega⟩
      rw [List.flatMap_cons, List.cons_append] at hn ⊢
      rw [List.length_cons, List.length_append] at hn
      have hmore := ih (fun e' he' => h e' (List.mem_cons_of_mem e he')) fun e' he' => hD e' (List.mem_cons_of_mem e he')
      have hbegins : Begins Kind.stopsAssignment Kind.stopsExpression (es.flatMap fun e => .mark .comma :: lexemes (lay e)) := by
        cases es with
        | nil => exact fun k hk => (stopsExpression_cases hk).1
        | cons e' es => rfl
      refine .eatPunct (.bind ((h e List.mem_cons_self).inner (hD e List.mem_cons_self)) hbegins fun e' he' => ?_)
      exact .bind_pure (hmore n (by omega)) fun es' hes' => .pure (.cons he' hes')

end Parse
end FieldScript
