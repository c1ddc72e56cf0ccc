import FieldScript.Proofs.Render.Nested

/-!
# Layouts scan as their lexemes

Where a legible tree is laid out, each lexeme is found by the scan with whatever follows it (`block_lays`). The only
exception is an access with a point behind a number of digits alone: the number takes the point, as its fraction.

What follows an expression decides whether its last lexeme ends there. Nearly everywhere this is a blank, a bracket or
a comma (`Ends`); only the object of an access may have a point behind it.
-/

namespace FieldScript

open Text (isDigit)
open Token (Depths Lexeme Piece Lays Clear Breaks IsWord Halts isTight isWordPart isDigitOrGap isWord_keyword
  leadingPunct?)
open Token.Piece (chars lexemes)

/-! ## Numbers in front of points -/

/-- A number that is written with digits and underscores alone. -/
def Literal.isDigits (lit : Literal) : Bool :=
  match lit.value with
  | .number _ => lit.raw.toList.all isDigitOrGap
  | _ => false

/-- An access with a point behind a number of digits alone. -/
def Node.isFused : Node → Bool
  | .expr (.member (.literal lit _) (.name _) false _) => lit.isDigits
  | _ => false

/-- The number of accesses with a point behind a number of digits alone. -/
def fused (ns : List Node) : Nat := ns.countP Node.isFused

@[simp] theorem fused_nil : fused [] = 0 := rfl

@[simp] theorem fused_cons (n : Node) (ns : List Node) : fused (n :: ns) = n.isFused.toNat + fused ns := by
  simp only [fused, List.countP_cons]
  cases n.isFused <;> simp <;> omega

@[simp] theorem fused_append (ns ns' : List Node) : fused (ns ++ ns') = fused ns + fused ns' := List.countP_append

/-- Expressions whose last lexeme is a number of digits alone. -/
def Expr.endsInDigits : Expr → Bool
  | .literal lit _ => lit.isDigits
  | .await e _ => e.endsInDigits
  | _ => false

/-! ## What may follow -/

/-- A text in front of which every expression ends. -/
def Ends (cs : List Char) : Prop := Clear cs ∧ cs.head? ≠ some '.'

theorem clear_cons {c : Char} {cs : List Char} (hpart : isWordPart c = false) (hsign : c ≠ '+' ∧ c ≠ '-') :
    Clear (c :: cs) := by
  refine ⟨Token.halts_cons.2 hpart, ?_⟩
  rintro s d more heq (rfl | rfl)
  · exact absurd (List.cons.inj heq).1 hsign.1
  · exact absurd (List.cons.inj heq).1 hsign.2

theorem ends_cons {c : Char} {cs : List Char} (hpart : isWordPart c = false) (hsign : c ≠ '+' ∧ c ≠ '-')
    (hdot : c ≠ '.') : Ends (c :: cs) := ⟨clear_cons hpart hsign, by simpa using hdot⟩

theorem ends_blank (ps : List Piece) (cs : List Char) : Ends (chars (Layout.blank ++ ps) ++ cs) :=
  ends_cons (by decide) (by decide) (by decide)

/-- Marks that may follow an expression without a blank between them. -/
def Punct.isEnder : Punct → Bool
  | .closeParen | .closeBracket | .comma | .semicolon | .colon | .increment | .decrement | .optionalDot
  | .openParen | .openBracket => true
  | _ => false

theorem ends_mark {p : Punct} (hp : p.isEnder = true) (ps : List Piece) (cs : List Char) :
    Ends (chars (Layout.mark p ++ ps) ++ cs) := by
  have hstep : ∀ {c : Char} {more : List Char}, isWordPart c = false → isDigit c = false → c ≠ '.' →
      Ends (c :: c :: more) := by
    intro c more hpart hdigit hdot
    refine ⟨⟨Token.halts_cons.2 hpart, ?_⟩, by simpa using hdot⟩
    rintro s d rest heq -
    simp only [List.cons.injEq] at heq
    rw [← heq.2.1]
    exact hdigit
  cases p with
  | increment => exact hstep (c := '+') (by decide) (by decide) (by decide)
  | decrement => exact hstep (c := '-') (by decide) (by decide) (by decide)
  | closeParen | closeBracket | comma | semicolon | colon | optionalDot | openParen | openBracket =>
      exact ends_cons (by decide) (by decide) (by decide)
  | _ => cases hp

namespace Layout

variable {d : Depths} {ps qs : List Piece} {pss : List (List Piece)} {cs : List Char} {n m : Nat}

theorem lays_cast (h : Lays d ps cs d n) (hn : n = m) : Lays d ps cs d m := hn ▸ h

theorem lays_append (h : Lays d ps (chars qs ++ cs) d n) (h' : Lays d qs cs d m) : Lays d (ps ++ qs) cs d (n + m) :=
  h.append h'

theorem lays_blank (h : Lays d qs cs d m) : Lays d (blank ++ qs) cs d m := .blank h

theorem lays_front (h : Lays d ps (chars qs ++ cs) d 0) (h' : Lays d qs cs d m) : Lays d (ps ++ qs) cs d m :=
  lays_cast (lays_append h h') (Nat.zero_add m)

theorem lays_lexeme {l : Lexeme} (hl : l.Scans d d cs) : Lays d [.lexeme l] cs d 0 := .lexeme hl (.nil d cs)

theorem lays_word {s : String} (hs : IsWord s.toList) (hcs : Breaks cs) : Lays d (word s) cs d 0 :=
  lays_lexeme (Lexeme.word_scans hs hcs d)

/-! ## Marks -/

theorem after_eq {p : Punct} (hopen : p ≠ .openBrace) (hclose : p ≠ .closeBrace) : d.after p = d := by
  cases d <;> simp [Depths.after, hopen, hclose]

/-- Marks that are neither braces nor a point nor a slash. -/
def isCommon : Punct → Bool
  | .openBrace | .closeBrace | .dot | .slash => false
  | _ => true

theorem lays_leading {p : Punct} (hp : isCommon p = true) (hlead : leadingPunct? (p.text.toList ++ cs) = some p) :
    Lays d (mark p) cs d 0 := by
  have hscans : (Lexeme.mark p).Scans d (d.after p) cs := by
    refine Lexeme.mark_scans hlead ?_ ?_ ?_ <;> rintro rfl <;> cases hp
  rw [after_eq (by rintro rfl; cases hp) (by rintro rfl; cases hp)] at hscans
  exact lays_lexeme hscans

/-- A mark that no other mark starts with. -/
theorem lays_tight {p : Punct} (hp : isCommon p = true) (htight : isTight p = true) : Lays d (mark p) cs d 0 :=
  lays_leading hp (Token.leadingPunct?_tight htight cs)

/-- A mark in front of a blank. -/
theorem lays_mark {p : Punct} (hp : p ≠ .openBrace ∧ p ≠ .closeBrace) (h : Lays d qs cs d m) :
    Lays d (.lexeme (.mark p) :: (blank ++ qs)) cs d m := by
  refine .lexeme ?_ (lays_blank h)
  have hscans : (Lexeme.mark p).Scans d (d.after p) (' ' :: (chars qs ++ cs)) :=
    Lexeme.mark_scans (Token.leadingPunct?_blank p _) (fun _ => Token.halts_cons.2 (by decide))
      (fun _ => ⟨by simp, by simp⟩) fun hclose => absurd hclose hp.2
  rwa [after_eq hp.1 hp.2] at hscans

/-- A word in front of a blank. -/
theorem lays_keyword {s : String} (hs : IsWord s.toList) (h : Lays d qs cs d m) : Lays d (word s ++ (blank ++ qs)) cs d m :=
  lays_front (lays_word hs (ends_blank _ _).1.1) (lays_blank h)

/-! ## Brackets -/

/-- Pieces that scan wherever an expression may end. -/
def Lies (ps : List Piece) (n : Nat) : Prop := ∀ d cs, Ends cs → Lays d ps cs d n

theorem Lies.wrap {p q : Punct} (h : Lies ps n) (hp : isCommon p = true ∧ isTight p = true)
    (hq : isCommon q = true ∧ isTight q = true) (hend : q.isEnder = true) :
    Lays d (mark p ++ (ps ++ mark q)) cs d n :=
  lays_front (lays_tight hp.1 hp.2) (lays_append (h d _ (ends_mark hend [] cs)) (lays_tight hq.1 hq.2))

theorem Lies.parens (h : Lies ps n) : Lays d (parens ps) cs d n := h.wrap ⟨rfl, rfl⟩ ⟨rfl, rfl⟩ rfl

theorem Lies.brackets (h : Lies ps n) : Lays d (mark .openBracket ++ (ps ++ mark .closeBracket)) cs d n :=
  h.wrap ⟨rfl, rfl⟩ ⟨rfl, rfl⟩ rfl

theorem after_braces : (d.after .openBrace).after .closeBrace = d := by
  cases d <;> simp [Depths.after]

theorem Lies.braces (h : Lies ps n) : Lays d (braces ps) cs d n := by
  have hopen : (Lexeme.mark .openBrace).Scans d (d.after .openBrace) (chars (blank ++ (ps ++ (blank ++ mark .closeBrace))) ++ cs) :=
    Lexeme.mark_scans (Token.leadingPunct?_tight rfl _) nofun nofun nofun
  have hclose : (Lexeme.mark .closeBrace).Scans (d.after .openBrace) ((d.after .openBrace).after .closeBrace) cs := by
    refine Lexeme.mark_scans (Token.leadingPunct?_tight rfl _) nofun nofun fun _ => ?_
    cases d <;> simp [Depths.after]
  rw [after_braces] at hclose
  refine .lexeme hopen (.blank ?_)
  exact (h _ _ (ends_blank _ _)).append (.blank (.lexeme hclose (.nil d cs)))

/-! ## Several things -/

/-- Layouts of several things that all scan. -/
inductive LieAll : List (List Piece) → Nat → Prop where
  | nil : LieAll [] 0
  | cons {ps : List Piece} {pss : List (List Piece)} {n m : Nat} (h : Lies ps n) (more : LieAll pss m) :
      LieAll (ps :: pss) (n + m)

theorem LieAll.commas (h : LieAll pss n) : Lies (commas pss) n := by
  induction h with
  | nil => exact fun d cs _ => .nil d cs
  | @cons ps pss n m h more ih =>
      cases more with
      | nil => exact h
      | cons h' more =>
          intro d cs hcs
          exact lays_append (h d _ (ends_mark rfl _ _)) (lays_front (lays_tight rfl rfl) (lays_blank (ih d cs hcs)))

theorem LieAll.spaced (h : LieAll pss n) : Lies (spaced pss) n := by
  induction h with
  | nil => exact fun d cs _ => .nil d cs
  | @cons ps pss n m h more ih =>
      cases more with
      | nil => exact h
      | cons h' more =>
          intro d cs hcs
          exact lays_append (h d _ (ends_blank _ _)) (lays_blank (ih d cs hcs))

theorem LieAll.list (h : LieAll pss n) (endsWithHole : Bool) : Lays d (list pss endsWithHole) cs d n := by
  have hinner : Lies (Layout.commas pss ++ if endsWithHole then mark .comma else []) n := by
    intro d cs hcs
    cases endsWithHole with
    | true => exact lays_append (h.commas d _ (ends_mark rfl [] cs)) (lays_tight rfl rfl)
    | false => simpa using h.commas d cs hcs
  rw [Layout.list, ← List.append_assoc (Layout.commas pss)]
  exact hinner.brackets

/-! ## Templates -/

theorem ends_piece (part : TemplatePart) (ending : Token.TemplateEnd) (ps : List Piece) (cs : List Char) :
    Ends (chars (.lexeme (.piece false part ending) :: ps) ++ cs) :=
  ends_cons (c := '}') (by decide) (by decide) (by decide)

theorem ends_template {parts : List TemplatePart} (hparts : parts ≠ []) (pss : List (List Piece)) (cs : List Char) :
    Ends (chars (template false parts pss) ++ cs) := by
  cases parts with
  | nil => exact absurd rfl hparts
  | cons part parts => cases pss <;> exact ends_piece _ _ _ _

theorem LieAll.template (h : LieAll pss n) (head : Bool) {parts : List TemplatePart}
    (hlength : parts.length = pss.length + 1) (hparts : ∀ part ∈ parts, Token.IsPart part) :
    Lays (if head then d else 0 :: d) (template head parts pss) cs d n := by
  induction h generalizing head parts with
  | nil =>
      obtain ⟨part, rfl⟩ := List.length_eq_one_iff.1 hlength
      exact .lexeme (Lexeme.piece_scans (hparts part List.mem_cons_self) head .closed d cs) (.nil d cs)
  | @cons ps pss n m h more ih =>
      obtain _ | ⟨part, parts⟩ := parts
      · cases hlength
      have hne : parts ≠ [] := by
        rintro rfl
        cases hlength
      have hrest := ih false (Nat.succ.inj hlength) fun part hpart => hparts part (List.mem_cons_of_mem _ hpart)
      refine .lexeme (Lexeme.piece_scans (hparts part List.mem_cons_self) head .substitution d _) ?_
      exact (h (0 :: d) _ (ends_template hne _ _)).append hrest

/-! ## Single lexemes -/

theorem lays_literal {lit : Literal} (h : lit.Legible) (hcs : Breaks cs)
    (hdot : lit.isDigits = true → cs.head? ≠ some '.') : Lays d [.lexeme lit.lexeme] cs d 0 := by
  refine lays_lexeme ?_
  obtain ⟨value, raw⟩ := lit
  have hword : ∀ {s : String}, IsWord s.toList → raw = s → (⟨Token.wordKind s, raw.toList⟩ : Lexeme).Scans d d cs := by
    rintro s hs rfl
    exact Lexeme.word_scans hs hcs d
  match value with
  | .number x => exact Lexeme.number_scans h hcs hdot d
  | .string s => exact Lexeme.quoted_scans h cs d
  | .bool true => exact hword (isWord_keyword .trueWord) h
  | .bool false => exact hword (isWord_keyword .falseWord) h
  | .null => exact hword (isWord_keyword .nullWord) h

/-- An infix operator between blanks. -/
theorem lays_operator (op : BinaryOp) (h : Lays d qs cs d m) : Lays d (.lexeme op.lexeme :: (blank ++ qs)) cs d m := by
  cases op with
  | isIn => exact lays_keyword (isWord_keyword .inWord) h
  | instanceOf => exact lays_keyword (isWord_keyword .instanceofWord) h
  | _ => exact lays_mark (by decide) h

theorem lays_logical (op : LogicalOp) (h : Lays d qs cs d m) : Lays d (.lexeme op.lexeme :: (blank ++ qs)) cs d m := by
  cases op <;> exact lays_mark (by decide) h

theorem lays_assign (op : AssignOp) (h : Lays d qs cs d m) : Lays d (.lexeme op.lexeme :: (blank ++ qs)) cs d m := by
  refine lays_mark ?_ h
  unfold AssignOp.punct?
  split <;> decide

/-! ## How an expression starts -/

/-- Characters that no expression starts with. -/
def isOperatorHead (c : Char) : Bool := c = '=' || c = '-' || c = '+'

/-- A text that starts, and not with an operator. -/
def Opens (cs : List Char) : Prop := ∃ c rest, cs = c :: rest ∧ isOperatorHead c = false

theorem Opens.append (h : Opens cs) (more : List Char) : Opens (cs ++ more) := by
  obtain ⟨c, rest, rfl, hc⟩ := h
  exact ⟨c, rest ++ more, rfl, hc⟩

theorem opens_word {w : List Char} (h : IsWord w) : Opens w := by
  obtain ⟨c, rest, rfl, hc, -⟩ := h
  refine ⟨c, rest, rfl, ?_⟩
  have hne : ∀ x : Char, Token.isWordHead x = false → c ≠ x := by
    rintro x hx rfl
    rw [hc] at hx
    cases hx
  simp [isOperatorHead, hne '=' (by decide), hne '-' (by decide), hne '+' (by decide)]

theorem opens_literal {lit : Literal} (h : lit.Legible) : Opens lit.lexeme.chars := by
  obtain ⟨value, raw⟩ := lit
  match value with
  | .number x =>
      obtain ⟨c, rest, hraw, hc⟩ := Token.IsNumber.head h
      refine ⟨c, rest, hraw, ?_⟩
      rcases hc with hdigit | ⟨rfl, -⟩
      · have hne : ∀ x : Char, isDigit x = false → c ≠ x := by
          rintro x hx rfl
          rw [hdigit] at hx
          cases hx
        simp [isOperatorHead, hne '=' (by decide), hne '-' (by decide), hne '+' (by decide)]
      · decide
  | .string s =>
      obtain ⟨quote, body, hraw, hquote, -⟩ := h
      refine ⟨quote, body, hraw, ?_⟩
      simp only [Bool.or_eq_true, decide_eq_true_eq] at hquote
      rcases hquote with rfl | rfl <;> decide
  | .bool true => exact ⟨'t', ['r', 'u', 'e'], congrArg String.toList h, by decide⟩
  | .bool false => exact ⟨'f', ['a', 'l', 's', 'e'], congrArg String.toList h, by decide⟩
  | .null => exact ⟨'n', ['u', 'l', 'l'], congrArg String.toList h, by decide⟩

theorem opens_parens (ps : List Piece) : Opens (chars (parens ps)) := ⟨'(', _, rfl, by decide⟩

theorem operand_opens (e : Expr) (h : Opens (chars ps)) : Opens (chars (operand e ps)) := by
  unfold operand
  split
  · exact opens_parens _
  · exact h

theorem expr_opens (e : Expr) (h : e.Legible true) : Opens (chars (expr e)) := by
  match e with
  | .literal lit _ => simpa [expr, chars] using opens_literal h
  | .template (_ :: _) [] _ => exact ⟨'\x60', _, rfl, by decide⟩
  | .template (_ :: _) (_ :: _) _ => exact ⟨'\x60', _, rfl, by decide⟩
  | .template [] _ _ => cases h.1
  | .array _ _ => exact ⟨'[', _, rfl, by decide⟩
  | .identifier name _ => simpa [expr, chars, word, Lexeme.word] using opens_word h.1
  | .member o k _ _ =>
      rw [expr, Piece.chars_append]
      exact (operand_opens o (expr_opens o h.1)).append _
  | .call callee _ _ _ =>
      rw [expr, Piece.chars_append]
      exact (operand_opens callee (expr_opens callee h.1)).append _
  | .function _ => cases h
  | .this _ => cases h
  | .await _ _ => exact ⟨'a', _, rfl, by decide⟩
  | .object _ _ | .arrow _ _ _ _ | .unary _ _ _ | .update _ _ _ _ | .binary _ _ _ _ | .logical _ _ _ _
  | .conditional _ _ _ _ | .assign _ _ _ _ | .sequence _ _ => exact opens_parens _

/-- An operator in front of what it applies to. -/
theorem lays_unary {op : UnaryOp} (hopens : Opens (chars qs ++ cs)) (h : Lays d qs cs d m) :
    Lays d (.lexeme op.lexeme :: ((if op.isWord then blank else []) ++ qs)) cs d m := by
  obtain ⟨c, rest, heq, hc⟩ := hopens
  simp only [isOperatorHead, Bool.or_eq_false_iff, decide_eq_false_iff_not] at hc
  have hmark : ∀ {p : Punct}, isCommon p = true → leadingPunct? (p.text.toList ++ (c :: rest)) = some p →
      Lays d (mark p ++ qs) cs d m := by
    intro p hp hlead
    rw [← heq] at hlead
    exact lays_front (lays_leading hp hlead) h
  cases op with
  | not => exact hmark rfl (Token.leadingPunct?_bang hc.1.1 rest)
  | neg => exact hmark rfl (Token.leadingPunct?_minus hc.1.1 hc.1.2 rest)
  | plus => exact hmark rfl (Token.leadingPunct?_plus hc.1.1 hc.2 rest)
  | bitNot => exact hmark rfl (Token.leadingPunct?_tight rfl _)
  | typeOf => exact lays_keyword (isWord_keyword .typeofWord) h
  | void => exact lays_keyword (isWord_keyword .voidWord) h
  | delete => exact lays_keyword (isWord_keyword .deleteWord) h

theorem lays_update {op : UpdateOp} : Lays d [.lexeme op.lexeme] cs d 0 := by
  cases op <;> exact lays_tight rfl rfl

/-! ## Accesses -/

theorem isNumber_of_isDigits {lit : Literal} (h : lit.Legible) (hdigits : lit.isDigits = true) :
    ∃ x, lit.lexeme = .number x lit.raw.toList ∧ Token.IsNumber x lit.raw.toList ∧
      ∀ c ∈ lit.raw.toList, isDigitOrGap c = true := by
  obtain ⟨value, raw⟩ := lit
  cases value with
  | number x => exact ⟨x, rfl, h, List.all_eq_true.1 hdigits⟩
  | _ => cases hdigits

theorem exists_of_isFused {o : Expr} {k : Key} {optional : Bool} {span : Span}
    (h : (Node.expr (.member o k optional span)).isFused = true) :
    ∃ lit lspan id, o = .literal lit lspan ∧ k = .name id ∧ optional = false ∧ lit.isDigits = true := by
  unfold Node.isFused at h
  split at h
  · rename_i lit lspan id mspan heq
    cases heq
    exact ⟨lit, lspan, id, rfl, rfl, rfl, h⟩
  · cases h

/-- The head of a word behind a point. -/
theorem word_head {name : String} (hname : IsWord name.toList) (cs : List Char) :
    ∃ c rest, chars (word name) ++ cs = c :: rest ∧ c ≠ '.' ∧ isDigit c = false := by
  obtain ⟨c, rest, hname', hc, -⟩ := hname
  refine ⟨c, rest ++ cs, by simp [word, chars, Lexeme.word, hname'], ?_, (Token.isPlain_of_isWordHead hc).digit⟩
  rintro rfl
  revert hc
  decide

/-- A point in front of a name. -/
theorem lays_dot {name : String} (hname : IsWord name.toList) (hcs : Breaks cs) :
    Lays d (mark .dot ++ word name) cs d 0 := by
  refine lays_front (lays_lexeme ?_) (lays_word hname hcs)
  obtain ⟨c, rest, heq, hne, hdigit⟩ := word_head hname cs
  rw [heq]
  have hscans : (Lexeme.mark .dot).Scans d (d.after .dot) (c :: rest) :=
    Lexeme.mark_scans (Token.leadingPunct?_dot hne rest) (fun _ => Token.halts_cons.2 hdigit) nofun nofun
  rwa [after_eq (by decide) (by decide)] at hscans

/-- A mark for an optional link in front of it. -/
theorem lays_optionalDot (hcs : ∃ c rest, cs = c :: rest ∧ isDigit c = false) : Lays d (mark .optionalDot) cs d 0 := by
  obtain ⟨c, rest, rfl, hc⟩ := hcs
  exact lays_leading rfl (Token.leadingPunct?_optionalDot hc rest)

theorem lays_link (optional : Bool) {p : Punct} (hp : p = .openParen ∨ p = .openBracket)
    (h : Lays d (mark p ++ qs) cs d n) : Lays d (link optional p ++ qs) cs d n := by
  cases optional with
  | true =>
      have hwhole : Lays d (mark .optionalDot ++ (mark p ++ qs)) cs d n := by
        refine lays_front (lays_optionalDot ?_) h
        rcases hp with rfl | rfl
        · exact ⟨'(', _, rfl, by decide⟩
        · exact ⟨'[', _, rfl, by decide⟩
      simpa [link] using hwhole
  | false => exact h

/-- What an access starts with ends everything but, if it is a point, a number of digits alone. -/
theorem access_clear (optional : Bool) (k : Key) (cs : List Char) :
    Clear (chars (access optional k) ++ cs) ∧
      ((chars (access optional k) ++ cs).head? = some '.' → optional = false ∧ k.isName = true) := by
  have hends : ∀ {text : List Char}, Ends text → Clear text ∧ (text.head? = some '.' → optional = false ∧ k.isName = true) :=
    fun h => ⟨h.1, fun hdot => absurd hdot h.2⟩
  cases optional with
  | true => cases k <;> exact hends (ends_cons (c := '?') (by decide) (by decide) (by decide))
  | false =>
      cases k with
      | name id => exact ⟨clear_cons (by decide) (by decide), fun _ => ⟨rfl, rfl⟩⟩
      | literal lit => exact hends (ends_cons (c := '[') (by decide) (by decide) (by decide))
      | computed e => exact hends (ends_cons (c := '[') (by decide) (by decide) (by decide))

/-- The object of an access or the function of a call. -/
theorem lays_operand {e : Expr} (h : ∀ d cs, Clear cs → (e.endsInDigits = true → cs.head? ≠ some '.') → Lays d ps cs d n)
    (hcs : Clear cs) (hdot : (∀ lit span, e = .literal lit span → lit.isDigits = true → cs.head? ≠ some '.')) :
    Lays d (operand e ps) cs d n := by
  have hparens : Lays d (parens ps) cs d n := Lies.parens fun d cs hcs => h d cs hcs.1 fun _ => hcs.2
  cases e with
  | await arg span => exact hparens
  | literal lit span => exact h d cs hcs (hdot lit span rfl)
  | _ => exact h d cs hcs nofun

/-- An entry with its key in front. -/
theorem lies_entry {k : Key} {shorthand : Bool} (hk : ∀ d cs, Ends cs → Lays d (key k) cs d (fused (Node.ofKey k)))
    (h : Lies ps n) (hshort : shorthand = true → k.isName = true) :
    Lies ((if shorthand then [] else key k ++ (mark .colon ++ blank)) ++ ps) (fused (Node.ofKey k) + n) := by
  intro d cs hcs
  cases shorthand with
  | true =>
      cases k with
      | name id => exact lays_cast (h d cs hcs) (by simp [Node.ofKey])
      | _ => cases hshort rfl
  | false =>
      have hcolon : Lays d (mark .colon ++ (blank ++ ps)) cs d n :=
        lays_front (lays_tight rfl rfl) (lays_blank (h d cs hcs))
      have hwhole := lays_append (hk d _ (ends_mark (p := .colon) rfl _ _)) hcolon
      simpa using hwhole

/-! ## The layout of a tree -/

open Node

mutual

theorem expr_lays (e : Expr) (h : e.Legible true) (d : Depths) (cs : List Char) (hcs : Clear cs)
    (hdot : e.endsInDigits = true → cs.head? ≠ some '.') : Lays d (expr e) cs d (fused (ofExpr e)) := by
  match e with
  | .literal lit _ => exact lays_literal h hcs.1 hdot
  | .template parts es _ =>
      have hparts : parts.length = (exprs es).length + 1 := by
        rw [length_exprs]
        exact h.1
      exact lays_cast ((exprs_lie es h.2.2).template true hparts h.2.1) (by simp [ofExpr, isFused])
  | .array es _ => exact lays_cast ((items_lie es true h).list _) (by simp [ofExpr, isFused])
  | .object ps _ =>
      have hbraces : Lies (braces (commas (properties ps))) (fused (ofProperties ps)) :=
        fun d cs _ => (properties_lie ps h).commas.braces
      exact lays_cast hbraces.parens (by simp [ofExpr, isFused])
  | .identifier name _ => exact lays_word h.1 hcs.1
  | .member o k optional span =>
      cases hfused : (Node.expr (.member o k optional span)).isFused with
      | true =>
          obtain ⟨lit, lspan, id, rfl, rfl, rfl, hdigits⟩ := exists_of_isFused hfused
          obtain ⟨x, hlexeme, hnumber, hall⟩ := isNumber_of_isDigits h.1 hdigits
          have hclear : Clear (chars [] ++ cs) := hcs
          have hlays := Lays.fused hnumber hall h.2 hclear (.nil d cs)
          rw [← hlexeme] at hlays
          rw [ofExpr, fused_cons, hfused]
          exact hlays
      | false =>
          obtain ⟨hclear, hhead⟩ := access_clear optional k cs
          refine lays_cast (lays_append (lays_operand (expr_lays o h.1) hclear ?_) (access_lays optional k h.2 d cs hcs)) ?_
          · rintro lit lspan rfl hdigits hpoint
            obtain ⟨rfl, hname⟩ := hhead hpoint
            cases k with
            | name id => exact absurd hdigits (by simpa [isFused] using hfused)
            | _ => cases hname
          · simp [ofExpr, hfused]
  | .call callee args optional _ =>
      have hargs : Lays d (mark .openParen ++ (commas (items args) ++ mark .closeParen)) cs d (fused (ofItems args)) :=
        (items_lie args false h.2).commas.parens
      have hends : Ends (chars (link optional .openParen ++ (commas (items args) ++ mark .closeParen)) ++ cs) := by
        cases optional with
        | true => exact ends_mark (p := .optionalDot) rfl _ _
        | false => exact ends_mark (p := .openParen) rfl _ _
      refine lays_cast (lays_append (lays_operand (expr_lays callee h.1) hends.1 fun _ _ _ _ => hends.2)
        (lays_link optional (.inl rfl) hargs)) ?_
      simp [ofExpr, isFused]
  | .arrow ps body isAsync _ =>
      have hinner : Lies ((if isAsync then word "async" ++ blank else []) ++ (parens (commas (patterns ps)) ++
          (blank ++ (mark .arrow ++ (blank ++ arrowBody body))))) (fused (ofPatterns ps) + fused (ofArrowBody body)) := by
        intro d cs hcs
        have hbody : Lays d (mark .arrow ++ (blank ++ arrowBody body)) cs d (fused (ofArrowBody body)) :=
          lays_mark (by decide) (arrowBody_lies body h.2 d cs hcs)
        have hrest := lays_append (patterns_lie .bind .param ps h.1).commas.parens (lays_blank hbody)
        cases isAsync with
        | true => exact lays_keyword (isWord_keyword .asyncWord) hrest
        | false => exact hrest
      exact lays_cast hinner.parens (by simp [ofExpr, isFused])
  | .function _ => cases h
  | .this _ => cases h
  | .await e _ =>
      exact lays_cast (lays_keyword (isWord_keyword .awaitWord) (expr_lays e h d cs hcs hdot)) (by simp [ofExpr, isFused])
  | .unary op e _ =>
      have hinner : Lies (.lexeme op.lexeme :: ((if op.isWord then blank else []) ++ expr e)) (fused (ofExpr e)) :=
        fun d cs hcs => lays_unary ((expr_opens e h).append cs) (expr_lays e h d cs hcs.1 fun _ => hcs.2)
      exact lays_cast hinner.parens (by simp [ofExpr, isFused])
  | .update op before p _ =>
      have hinner : Lies ((if before then [Piece.lexeme op.lexeme] else []) ++ (pattern p ++
          (if before then [] else [Piece.lexeme op.lexeme]))) (fused (ofPattern p)) := by
        intro d cs hcs
        cases before with
        | true =>
            refine lays_front lays_update ?_
            simpa using pattern_lies .assign .target p h.2 d cs hcs
        | false =>
            have hends : Ends (chars [Piece.lexeme op.lexeme] ++ cs) := by
              cases op with
              | increment => exact ends_mark (p := .increment) rfl [] cs
              | decrement => exact ends_mark (p := .decrement) rfl [] cs
            exact lays_append (pattern_lies .assign .target p h.2 d _ hends) lays_update
      exact lays_cast hinner.parens (by simp [ofExpr, isFused])
  | .binary op l r _ =>
      have hinner : Lies (expr l ++ (blank ++ (.lexeme op.lexeme :: (blank ++ expr r))))
          (fused (ofExpr l) + fused (ofExpr r)) := by
        intro d cs hcs
        have hr := lays_blank (lays_operator op (expr_lays r h.2 d cs hcs.1 fun _ => hcs.2))
        exact lays_append (expr_lays l h.1 d _ (ends_blank _ _).1 fun _ => (ends_blank _ _).2) hr
      exact lays_cast hinner.parens (by simp [ofExpr, isFused])
  | .logical op l r _ =>
      have hinner : Lies (expr l ++ (blank ++ (.lexeme op.lexeme :: (blank ++ expr r))))
          (fused (ofExpr l) + fused (ofExpr r)) := by
        intro d cs hcs
        have hr := lays_blank (lays_logical op (expr_lays r h.2 d cs hcs.1 fun _ => hcs.2))
        exact lays_append (expr_lays l h.1 d _ (ends_blank _ _).1 fun _ => (ends_blank _ _).2) hr
      exact lays_cast hinner.parens (by simp [ofExpr, isFused])
  | .conditional test yes no _ =>
      have hinner : Lies (parens (expr test) ++ (blank ++ (mark .question ++ (blank ++ (parens (expr yes) ++ (blank ++
          (mark .colon ++ (blank ++ parens (expr no)))))))))
          (fused (ofExpr test) + (fused (ofExpr yes) + fused (ofExpr no))) := by
        intro d cs hcs
        have hno : Lays d (parens (expr no)) cs d (fused (ofExpr no)) :=
          Lies.parens fun d cs hcs => expr_lays no h.2.2 d cs hcs.1 fun _ => hcs.2
        have hyes := lays_append (Lies.parens fun d cs hcs => expr_lays yes h.2.1 d cs hcs.1 fun _ => hcs.2)
          (lays_blank (lays_mark (p := .colon) (by decide) hno))
        exact lays_append (Lies.parens fun d cs hcs => expr_lays test h.1 d cs hcs.1 fun _ => hcs.2)
          (lays_blank (lays_mark (p := .question) (by decide) hyes))
      exact lays_cast hinner.parens (by simp [ofExpr, isFused])
  | .assign op p e _ =>
      have hinner : Lies (pattern p ++ (blank ++ (.lexeme op.lexeme :: (blank ++ expr e))))
          (fused (ofPattern p) + fused (ofExpr e)) := by
        intro d cs hcs
        have he := lays_blank (lays_assign op (expr_lays e h.2.2.2 d cs hcs.1 fun _ => hcs.2))
        exact lays_append (pattern_lies .assign .target p h.2.2.1 d _ (ends_blank _ _)) he
      exact lays_cast hinner.parens (by simp [ofExpr, isFused])
  | .sequence es _ => exact lays_cast (exprs_lie es h.2).commas.parens (by simp [ofExpr, isFused])

theorem exprs_lie (es : List Expr) (h : LegibleExprs true es) : LieAll (exprs es) (fused (ofExprs es)) := by
  match es with
  | [] => exact .nil
  | e :: more =>
      rw [ofExprs, fused_append]
      exact .cons (fun d cs hcs => expr_lays e h.1 d cs hcs.1 fun _ => hcs.2) (exprs_lie more h.2)

theorem items_lie (es : List Item) (holes : Bool) (h : LegibleItems true holes es) :
    LieAll (items es) (fused (ofItems es)) := by
  match es with
  | [] => exact .nil
  | .expr e :: more =>
      rw [ofItems, fused_append]
      exact .cons (fun d cs hcs => expr_lays e h.1 d cs hcs.1 fun _ => hcs.2) (items_lie more holes h.2)
  | .spread e :: more =>
      rw [ofItems, fused_append]
      refine .cons (fun d cs hcs => ?_) (items_lie more holes h.2)
      exact lays_front (lays_tight rfl rfl) (expr_lays e h.1 d cs hcs.1 fun _ => hcs.2)
  | .hole :: more =>
      rw [ofItems, ← Nat.zero_add (fused _)]
      exact .cons (fun d cs _ => .nil d cs) (items_lie more holes h.2)

theorem access_lays (optional : Bool) (k : Key) (h : k.LegibleAccess true) (d : Depths) (cs : List Char) (hcs : Clear cs) :
    Lays d (access optional k) cs d (fused (ofKey k)) := by
  match k with
  | .name id =>
      cases optional with
      | true =>
          refine lays_front (lays_optionalDot ?_) (lays_word h hcs.1)
          obtain ⟨c, rest, heq, -, hdigit⟩ := word_head h cs
          exact ⟨c, rest, heq, hdigit⟩
      | false => exact lays_dot h hcs.1
  | .literal _ => cases h
  | .computed e => exact lays_link optional (.inr rfl) (Lies.brackets fun d cs hcs => expr_lays e h d cs hcs.1 fun _ => hcs.2)

theorem key_lays (k : Key) (h : k.Legible true) (d : Depths) (cs : List Char) (hcs : Ends cs) :
    Lays d (key k) cs d (fused (ofKey k)) := by
  match k with
  | .name id => exact lays_word h hcs.1.1
  | .literal lit => exact lays_literal h.2 hcs.1.1 fun _ => hcs.2
  | .computed e => exact Lies.brackets fun d cs hcs => expr_lays e h d cs hcs.1 fun _ => hcs.2

theorem properties_lie (ps : List Property) (h : LegibleProperties true ps) :
    LieAll (properties ps) (fused (ofProperties ps)) := by
  match ps with
  | [] => exact .nil
  | .init k e shorthand _ :: more =>
      rw [ofProperties, fused_append, fused_append, ← Nat.add_assoc]
      refine .cons (lies_entry (key_lays k h.2.1) ?_ fun hshort => (h.1 hshort).isName) (properties_lie more h.2.2.2)
      exact fun d cs hcs => expr_lays e h.2.2.1 d cs hcs.1 fun _ => hcs.2
  | .spread e :: more =>
      rw [ofProperties, fused_append]
      refine .cons (fun d cs _ => ?_) (properties_lie more h.2)
      exact lays_front (lays_tight rfl rfl) (Lies.parens fun d cs hcs => expr_lays e h.1 d cs hcs.1 fun _ => hcs.2)

theorem arrowBody_lies (body : ArrowBody) (h : body.Legible true) : Lies (arrowBody body) (fused (ofArrowBody body)) := by
  match body with
  | .expr e => exact fun d cs hcs => expr_lays e h d cs hcs.1 fun _ => hcs.2
  | .block b => exact fun d cs _ => block_lays b h d cs

theorem pattern_lies (mode : Render.Mode) (place : Place) (p : Pattern) (h : p.Legible true mode place) :
    Lies (pattern p) (fused (ofPattern p)) := by
  intro d cs hcs
  match p with
  | .ident id => exact lays_word (h.1) hcs.1.1
  | .array elements _ =>
      exact lays_cast ((patterns_lie mode .element elements h).list _) (by simp [ofPattern, isFused])
  | .object props _ =>
      exact lays_cast (patternProps_lie mode props h).commas.braces (by simp [ofPattern, isFused])
  | .assign target default =>
      have hdefault := lays_blank (lays_mark (p := .assign) (by decide) (expr_lays default h.2.2 d cs hcs.1 fun _ => hcs.2))
      exact lays_cast (lays_append (pattern_lies mode .target target h.2.1 d _ (ends_blank _ _)) hdefault)
        (by simp [ofPattern, isFused])
  | .rest target =>
      exact lays_cast (lays_front (lays_tight rfl rfl) (pattern_lies mode .target target h.2 d cs hcs))
        (by simp [ofPattern, isFused])
  | .member e => exact lays_cast (expr_lays e h.2.2 d cs hcs.1 fun _ => hcs.2) (by simp [ofPattern, isFused])
  | .hole => exact .nil d cs

theorem patterns_lie (mode : Render.Mode) (place : Place) (ps : List Pattern) (h : LegiblePatterns true mode place ps) :
    LieAll (patterns ps) (fused (ofPatterns ps)) := by
  match ps with
  | [] => exact .nil
  | p :: more =>
      rw [ofPatterns, fused_append]
      exact .cons (pattern_lies mode place p h.1) (patterns_lie mode place more h.2)

theorem patternProps_lie (mode : Render.Mode) (ps : List PatternProp) (h : LegiblePatternProps true mode ps) :
    LieAll (patternProps ps) (fused (ofPatternProps ps)) := by
  match ps with
  | [] => exact .nil
  | .init k p shorthand :: more =>
      rw [ofPatternProps, fused_append, fused_append, ← Nat.add_assoc]
      exact .cons (lies_entry (key_lays k h.2.1) (pattern_lies mode .entry p h.2.2.1) fun hshort => (h.1 hshort).1.isName)
        (patternProps_lie mode more h.2.2.2)
  | .rest p :: more =>
      rw [ofPatternProps, fused_append]
      exact .cons (fun d cs hcs => lays_front (lays_tight rfl rfl) (pattern_lies mode .target p h.2.1 d cs hcs))
        (patternProps_lie mode more h.2.2)

theorem block_lays (b : Block) (h : b.Legible true) (d : Depths) (cs : List Char) :
    Lays d (block b) cs d (fused (ofBlock b)) := by
  match b with
  | .mk stmts _ => exact (statements_lie stmts h).spaced.braces

theorem statements_lie (ss : List Stmt) (h : LegibleStmts true ss) : LieAll (statements ss) (fused (ofStmts ss)) := by
  match ss with
  | [] => exact .nil
  | s :: more =>
      rw [ofStmts, fused_append]
      exact .cons (fun d cs _ => statement_lays s h.1 d cs) (statements_lie more h.2)

theorem statement_lays (s : Stmt) (h : s.Legible true) (d : Depths) (cs : List Char) :
    Lays d (statement s) cs d (fused (ofStmt s)) := by
  have hsemicolon : ∀ cs, Lays d (mark .semicolon) cs d 0 := fun cs => lays_tight rfl rfl
  have hends : ∀ cs, Ends (chars (mark .semicolon) ++ cs) := fun cs => ends_mark rfl [] cs
  match s with
  | .expr e _ =>
      refine lays_cast (lays_append (expr_lays e h d _ (hends cs).1 fun _ => (hends cs).2) (hsemicolon cs)) ?_
      simp [ofStmt, isFused]
  | .declare decl _ =>
      exact lays_cast (lays_append (varDecl_lies decl h d _ (hends cs)) (hsemicolon cs)) (by simp [ofStmt, isFused])
  | .return none _ => exact lays_front (lays_word (isWord_keyword .returnWord) (hends cs).1.1) (hsemicolon cs)
  | .return (some e) _ =>
      have he := lays_append (expr_lays e h d _ (hends cs).1 fun _ => (hends cs).2) (hsemicolon cs)
      exact lays_cast (lays_keyword (isWord_keyword .returnWord) he) (by simp [ofStmt, ofOption, isFused])
  | .cond test yes none _ =>
      have htest := lays_append (Lies.parens fun d cs hcs => expr_lays test h.2.1 d cs hcs.1 fun _ => hcs.2)
        (lays_blank (statement_lays yes h.2.2 d cs))
      exact lays_cast (lays_keyword (isWord_keyword .ifWord) htest) (by simp [ofStmt, isFused])
  | .cond test yes (some no) _ =>
      have hno := lays_blank (lays_keyword (isWord_keyword .elseWord) (statement_lays no h.2.2.2 d cs))
      have hyes := lays_append (statement_lays yes h.2.2.1 d _) hno
      have htest := lays_append (Lies.parens fun d cs hcs => expr_lays test h.2.1 d cs hcs.1 fun _ => hcs.2)
        (lays_blank hyes)
      exact lays_cast (lays_keyword (isWord_keyword .ifWord) htest) (by simp [ofStmt, isFused])
  | .while test body _ =>
      have htest := lays_append (Lies.parens fun d cs hcs => expr_lays test h.2.1 d cs hcs.1 fun _ => hcs.2)
        (lays_blank (statement_lays body h.2.2 d cs))
      exact lays_cast (lays_keyword (isWord_keyword .whileWord) htest) (by simp [ofStmt, isFused])
  | .doWhile body test _ =>
      have htest := lays_append (Lies.parens fun d cs hcs => expr_lays test h.2.2 d cs hcs.1 fun _ => hcs.2) (hsemicolon cs)
      have hwhile := lays_blank (lays_keyword (isWord_keyword .whileWord) htest)
      exact lays_cast (lays_keyword (isWord_keyword .doWord) (lays_append (statement_lays body h.2.1 d _) hwhile))
        (by simp [ofStmt, isFused])
  | .for init test update body _ =>
      have hclauses : Lies (forInit init ++ (mark .semicolon ++ (blank ++ (optional test ++ (mark .semicolon ++
          (blank ++ optional update))))))
          (fused (ofForInit init) + (fused (ofOption test) + fused (ofOption update))) := by
        intro d cs hcs
        have hupdate := lays_front (lays_tight (p := .semicolon) rfl rfl)
          (lays_blank (optional_lies update h.2.2.2.1 d cs hcs))
        have htest := lays_front (lays_tight (p := .semicolon) rfl rfl)
          (lays_blank (lays_append (optional_lies test h.2.2.1 d _ (ends_mark rfl _ _)) hupdate))
        exact lays_append (forInit_lies init h.2.1 d _ (ends_mark rfl _ _)) htest
      have hwhole := lays_append hclauses.parens (lays_blank (statement_lays body h.2.2.2.2 d cs))
      exact lays_cast (lays_keyword (isWord_keyword .forWord) hwhole) (by simp [ofStmt, isFused, Nat.add_assoc])
  | .block b => exact lays_cast (block_lays b h d cs) (by simp [ofStmt, isFused])
  | .break _ => exact lays_front (lays_word (isWord_keyword .breakWord) (hends cs).1.1) (hsemicolon cs)
  | .continue _ => exact lays_front (lays_word (isWord_keyword .continueWord) (hends cs).1.1) (hsemicolon cs)
  | .debugger _ => exact lays_front (lays_word (isWord_keyword .debuggerWord) (hends cs).1.1) (hsemicolon cs)
  | .empty _ => exact hsemicolon cs
  | .function _ => cases h

theorem optional_lies (e : Option Expr) (h : LegibleOption true e) : Lies (optional e) (fused (ofOption e)) := by
  match e with
  | none => exact fun d cs _ => .nil d cs
  | some e => exact fun d cs hcs => expr_lays e h d cs hcs.1 fun _ => hcs.2

theorem forInit_lies (init : ForInit) (h : init.Legible true) : Lies (forInit init) (fused (ofForInit init)) := by
  match init with
  | .absent => exact fun d cs _ => .nil d cs
  | .declare decl => exact varDecl_lies decl h
  | .expr e => exact fun d cs hcs => expr_lays e h d cs hcs.1 fun _ => hcs.2

theorem varDecl_lies (decl : VarDecl) (h : decl.Legible true) : Lies (varDecl decl) (fused (ofVarDecl decl)) := by
  match decl with
  | .mk kind ds _ =>
      intro d cs hcs
      refine lays_keyword ?_ ((declarators_lie ds h.2).commas d cs hcs)
      cases kind with
      | const => exact isWord_keyword .constWord
      | «let» => exact isWord_keyword .letWord
      | var => exact isWord_keyword .varWord

theorem declarators_lie (ds : List Declarator) (h : LegibleDeclarators true ds) :
    LieAll (declarators ds) (fused (ofDeclarators ds)) := by
  match ds with
  | [] => exact .nil
  | .mk p none _ :: more =>
      rw [ofDeclarators, fused_append, fused_append, ← Nat.add_assoc]
      refine .cons (fun d cs hcs => ?_) (declarators_lie more h.2.2)
      simpa [initial, ofOption] using pattern_lies .bind .target p h.1 d cs hcs
  | .mk p (some e) _ :: more =>
      rw [ofDeclarators, fused_append, fused_append, ← Nat.add_assoc]
      refine .cons (fun d cs hcs => ?_) (declarators_lie more h.2.2)
      have he := lays_blank (lays_mark (p := .assign) (by decide) (expr_lays e h.2.1 d cs hcs.1 fun _ => hcs.2))
      exact lays_append (pattern_lies .bind .target p h.1 d _ (ends_blank _ _)) he

end

end Layout
end FieldScript
