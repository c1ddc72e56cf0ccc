import FieldScript.Proofs.Syntax.Dotted
import FieldScript.Proofs.Syntax.Legible

/-!
# Layouts are well nested

In the layout of a legible tree every bracket is closed, and every point stands in front of a member
(`block_nested`). So looking ahead for the parenthesis that closes one in front skips whatever is laid out between
them (`Nested.afterParens_eq`).
-/

namespace FieldScript

open Token (Kind Lexeme Piece Spells Stream dotsOf)
open Token.Piece (lexemes)
open Parse (afterParens)

/-! ## Brackets -/

namespace Token.Kind

/-- Kinds of tokens that open something. -/
def opens : Kind → Bool
  | .punct .openParen | .punct .openBracket | .punct .openBrace | .templateHead _ => true
  | _ => false

/-- Kinds of tokens that close something. -/
def closes : Kind → Bool
  | .punct .closeParen | .punct .closeBracket | .punct .closeBrace | .templateTail _ => true
  | _ => false

/-- Kinds of tokens that are neither brackets nor points. -/
def isFlat (k : Kind) : Bool := !k.opens && !k.closes && !k.isDot

end Token.Kind

/-- Lexemes in which every bracket is closed, with a number of points. -/
inductive Nested : List Lexeme → Nat → Prop where
  | nil : Nested [] 0
  | flat {l : Lexeme} (h : l.kind.isFlat = true) : Nested [l] 0
  | dot : Nested [.mark .dot] 1
  | append {ls ls' : List Lexeme} {n m : Nat} (h : Nested ls n) (h' : Nested ls' m) : Nested (ls ++ ls') (n + m)
  | wrap {l r : Lexeme} {ls : List Lexeme} {n : Nat} (hl : l.kind.opens = true) (hr : r.kind.closes = true)
      (h : Nested ls n) : Nested (l :: (ls ++ [r])) n

namespace Nested

variable {ls ls' : List Lexeme} {n m : Nat}

theorem cast (h : Nested ls n) (hn : n = m) : Nested ls m := hn ▸ h

theorem cons {l : Lexeme} (hl : l.kind.isFlat = true) (h : Nested ls n) : Nested (l :: ls) n :=
  (Nested.append (.flat hl) h).cast (Nat.zero_add n)

/-- Every point is counted. -/
theorem dotsOf_eq (h : Nested ls n) : dotsOf ls = n := by
  induction h with
  | nil => rfl
  | @flat l h =>
      simp only [Kind.isFlat, Bool.and_eq_true, Bool.not_eq_true'] at h
      simp [dotsOf, h.2]
  | dot => rfl
  | append h h' ih ih' => rw [dotsOf, List.countP_append, ← dotsOf, ← dotsOf, ih, ih']
  | @wrap l r ls n hl hr h ih =>
      have hopen : l.kind.isDot = false := by
        unfold Kind.opens at hl
        split at hl <;> simp_all [Kind.isDot]
      have hclose : r.kind.isDot = false := by
        unfold Kind.closes at hr
        split at hr <;> simp_all [Kind.isDot]
      rw [dotsOf] at ih
      simp [dotsOf, hopen, hclose, ih]

/-! ## Looking for the closing parenthesis -/

/-- What opens something leads one level down, what closes something one level up, and nothing else counts. -/
theorem afterParens_cons (t : Token) (rest : Stream) (k : Nat) :
    (t.kind.opens = true → afterParens k (.cons t rest) = afterParens (k + 1) rest) ∧
    (t.kind.closes = true → afterParens (k + 2) (.cons t rest) = afterParens (k + 1) rest) ∧
    (t.kind.opens = false → t.kind.closes = false → afterParens k (.cons t rest) = afterParens k rest) := by
  refine ⟨fun h => ?_, fun h => ?_, fun hopens hcloses => ?_⟩
  · rw [afterParens]
    unfold Kind.opens at h
    split at h <;> simp_all
  · rw [afterParens]
    unfold Kind.closes at h
    split at h <;> simp_all
  · rw [afterParens]
    split <;> simp_all [Kind.opens, Kind.closes]

/-- What is well nested is skipped. -/
theorem afterParens_eq (h : Nested ls n) {s rest : Stream} (hs : Spells s ls rest) (k : Nat) :
    afterParens (k + 1) s = afterParens (k + 1) rest := by
  induction h generalizing s rest k with
  | nil =>
      cases hs
      rfl
  | flat hl =>
      cases hs with
      | cons kind _ _ more =>
          cases more
          simp only [Kind.isFlat, Bool.and_eq_true, Bool.not_eq_true', ← kind] at hl
          exact (afterParens_cons _ _ _).2.2 hl.1.1 hl.1.2
  | dot =>
      cases hs with
      | cons kind _ _ more =>
          cases more
          exact (afterParens_cons _ _ _).2.2 (by rw [kind]; rfl) (by rw [kind]; rfl)
  | append _ _ ih ih' =>
      obtain ⟨mid, hfirst, hmore⟩ := hs.split
      rw [ih hfirst, ih' hmore]
  | wrap hl hr _ ih =>
      cases hs with
      | cons kind _ _ more =>
          obtain ⟨mid, hinner, hlast⟩ := more.split
          cases hlast with
          | cons kind' _ _ more' =>
              cases more'
              rw [(afterParens_cons _ _ _).1 (by rw [kind, hl]), ih hinner]
              exact (afterParens_cons _ _ _).2.1 (by rw [kind', hr])

end Nested

/-! ## Parts of layouts -/

theorem Property.IsShort.isName {k : Key} {e : Expr} (h : Property.IsShort k e) : k.isName = true := by
  obtain ⟨id, span, rfl, -⟩ := h
  rfl

theorem PatternProp.IsShort.isName {k : Key} {p : Pattern} (h : PatternProp.IsShort k p) : k.isName = true := by
  obtain ⟨id, span, rfl, -⟩ := h
  rfl

theorem isFlat_wordKind (word : String) : (Token.wordKind word).isFlat = true := by
  rcases Token.wordKind_cases word with ⟨k, hkind, -⟩ | hkind | hkind <;> rw [hkind] <;> rfl

theorem Literal.isFlat_lexeme (lit : Literal) : lit.lexeme.kind.isFlat = true := by
  unfold lexeme
  split <;> rfl

theorem BinaryOp.isFlat_lexeme (op : BinaryOp) : op.lexeme.kind.isFlat = true := by
  cases op <;> decide

theorem LogicalOp.isFlat_lexeme (op : LogicalOp) : op.lexeme.kind.isFlat = true := by
  cases op <;> rfl

theorem UnaryOp.isFlat_lexeme (op : UnaryOp) : op.lexeme.kind.isFlat = true := by
  cases op <;> decide

theorem UpdateOp.isFlat_lexeme (op : UpdateOp) : op.lexeme.kind.isFlat = true := by
  cases op <;> rfl

theorem AssignOp.isFlat_lexeme (op : AssignOp) : op.lexeme.kind.isFlat = true := by
  unfold lexeme punct?
  split <;> rfl

namespace Layout

/-- Layouts of several things that are all well nested, with a number of points. -/
inductive NestedAll : List (List Piece) → Nat → Prop where
  | nil : NestedAll [] 0
  | cons {ps : List Piece} {pss : List (List Piece)} {n m : Nat} (h : Nested (lexemes ps) n)
      (more : NestedAll pss m) : NestedAll (ps :: pss) (n + m)

variable {ps qs : List Piece} {pss : List (List Piece)} {n m : Nat}

theorem word_nested (s : String) : Nested (lexemes (word s)) 0 := .flat (isFlat_wordKind s)

theorem mark_nested {p : Punct} (h : (Kind.punct p).isFlat = true) : Nested (lexemes (mark p)) 0 := .flat h

theorem append_nested (h : Nested (lexemes ps) n) (h' : Nested (lexemes qs) m) : Nested (lexemes (ps ++ qs)) (n + m) := by
  rw [Piece.lexemes_append]
  exact .append h h'

/-- What has no points of its own in front of something. -/
theorem front_nested (h : Nested (lexemes ps) 0) (h' : Nested (lexemes qs) m) : Nested (lexemes (ps ++ qs)) m :=
  (append_nested h h').cast (Nat.zero_add m)

theorem lexeme_nested {l : Lexeme} (hl : l.kind.isFlat = true) (h : Nested (lexemes qs) m) :
    Nested (lexemes (.lexeme l :: qs)) m := .cons hl h

theorem blank_nested (h : Nested (lexemes qs) m) : Nested (lexemes (blank ++ qs)) m := h

/-- Something between brackets. -/
theorem wrap_nested {p q : Punct} (hp : (Kind.punct p).opens = true) (hq : (Kind.punct q).closes = true)
    (h : Nested (lexemes ps) n) : Nested (lexemes (mark p ++ (ps ++ mark q))) n := by
  rw [Piece.lexemes_append, Piece.lexemes_append]
  exact .wrap hp hq h

theorem parens_nested (h : Nested (lexemes ps) n) : Nested (lexemes (parens ps)) n := wrap_nested rfl rfl h

theorem braces_nested (h : Nested (lexemes ps) n) : Nested (lexemes (braces ps)) n := by
  rw [lexemes_braces]
  exact .wrap rfl rfl h

theorem commas_nested (h : NestedAll pss n) : Nested (lexemes (commas pss)) n := by
  induction h with
  | nil => exact .nil
  | @cons ps pss n m h more ih =>
      cases more with
      | nil => exact h
      | cons h' more => exact append_nested h (front_nested (mark_nested rfl) (blank_nested ih))

theorem spaced_nested (h : NestedAll pss n) : Nested (lexemes (spaced pss)) n := by
  induction h with
  | nil => exact .nil
  | @cons ps pss n m h more ih =>
      cases more with
      | nil => exact h
      | cons h' more => exact append_nested h (blank_nested ih)

theorem list_nested (h : NestedAll pss n) (endsWithHole : Bool) : Nested (lexemes (list pss endsWithHole)) n := by
  have hinner : Nested (lexemes (commas pss ++ if endsWithHole then mark .comma else [])) n := by
    cases endsWithHole with
    | true => exact append_nested (commas_nested h) (mark_nested rfl)
    | false => simpa using commas_nested h
  have hwhole := wrap_nested (p := .openBracket) (q := .closeBracket) rfl rfl hinner
  rwa [List.append_assoc] at hwhole

/-- A template behind its head: what is well nested, and the end of the template. -/
theorem template_tail_nested (h : NestedAll pss n) {parts : List TemplatePart} (hparts : parts.length = pss.length + 1) :
    ∃ ls tail, lexemes (template false parts pss) = ls ++ [tail] ∧ tail.kind.closes = true ∧ Nested ls n := by
  induction h generalizing parts with
  | nil =>
      obtain ⟨part, rfl⟩ := List.length_eq_one_iff.1 hparts
      exact ⟨[], .piece false part .closed, rfl, rfl, .nil⟩
  | @cons ps pss n m h more ih =>
      obtain _ | ⟨part, parts⟩ := parts
      · cases hparts
      obtain ⟨ls, tail, hls, htail, hnested⟩ := ih (Nat.succ.inj hparts)
      refine ⟨.piece false part .substitution :: (lexemes ps ++ ls), tail, ?_, htail, .cons rfl (.append h hnested)⟩
      simp [template, hls]

theorem template_nested (h : NestedAll pss n) {parts : List TemplatePart} (hparts : parts.length = pss.length + 1) :
    Nested (lexemes (template true parts pss)) n := by
  obtain _ | ⟨part, parts⟩ := parts
  · cases hparts
  cases h with
  | nil => exact .flat rfl
  | @cons ps pss n m h more =>
      obtain ⟨ls, tail, hls, htail, hnested⟩ := template_tail_nested more (Nat.succ.inj hparts)
      have heq : lexemes (template true (part :: parts) (ps :: pss)) =
          .piece true part .substitution :: ((lexemes ps ++ ls) ++ [tail]) := by
        simp [template, hls]
      rw [heq]
      exact .wrap rfl htail (.append h hnested)

theorem link_nested (optional : Bool) {p : Punct} (h : Nested (lexemes (mark p ++ qs)) n) :
    Nested (lexemes (link optional p ++ qs)) n := by
  cases optional with
  | true =>
      have hdot : Nested (lexemes (mark .optionalDot)) 0 := mark_nested rfl
      simpa [link] using front_nested hdot h
  | false => exact h

/-- An entry with its key, which is left out if it is a word. -/
theorem entry_nested {k : Key} {shorthand : Bool} (hk : Nested (lexemes (key k)) (dotted (Node.ofKey k)))
    (h : Nested (lexemes ps) n) (hshort : shorthand = true → k.isName = true) :
    Nested (lexemes ((if shorthand then [] else key k ++ (mark .colon ++ blank)) ++ ps)) (dotted (Node.ofKey k) + n) := by
  cases shorthand with
  | true =>
      cases k with
      | name id => exact h.cast (by simp [Node.ofKey])
      | _ => cases hshort rfl
  | false =>
      have hcolon : Nested (lexemes (mark .colon ++ blank)) 0 := mark_nested rfl
      exact append_nested (append_nested hk hcolon) h

theorem operand_nested {e : Expr} (h : Nested (lexemes ps) n) : Nested (lexemes (operand e ps)) n := by
  unfold operand
  split
  · exact parens_nested h
  · exact h

/-! ## What stands between parentheses -/

/-- Two operands with an operator between them. -/
theorem infix_nested {l : Lexeme} (hl : l.kind.isFlat = true) (h : Nested (lexemes ps) n) (h' : Nested (lexemes qs) m) :
    Nested (lexemes (ps ++ (blank ++ (.lexeme l :: (blank ++ qs))))) (n + m) :=
  append_nested h (blank_nested (lexeme_nested hl (blank_nested h')))

theorem unary_nested (op : UnaryOp) (h : Nested (lexemes ps) n) :
    Nested (lexemes (.lexeme op.lexeme :: ((if op.isWord then blank else []) ++ ps))) n := by
  refine lexeme_nested op.isFlat_lexeme ?_
  cases op.isWord <;> exact h

theorem update_nested (op : UpdateOp) (before : Bool) (h : Nested (lexemes ps) n) :
    Nested (lexemes ((if before then [Piece.lexeme op.lexeme] else []) ++ (ps ++
      (if before then [] else [Piece.lexeme op.lexeme])))) n := by
  have hop : Nested (lexemes [.lexeme op.lexeme]) 0 := .flat op.isFlat_lexeme
  cases before with
  | true => exact front_nested hop (by simpa using h)
  | false => exact append_nested h hop

theorem conditional_nested {rs : List Piece} {k : Nat} (h : Nested (lexemes ps) n) (h' : Nested (lexemes qs) m)
    (h'' : Nested (lexemes rs) k) :
    Nested (lexemes (parens ps ++ (blank ++ (mark .question ++ (blank ++ (parens qs ++ (blank ++ (mark .colon ++
      (blank ++ parens rs))))))))) (n + (m + k)) :=
  infix_nested (l := .mark .question) rfl (parens_nested h)
    (infix_nested (l := .mark .colon) rfl (parens_nested h') (parens_nested h''))

theorem arrow_nested (isAsync : Bool) (h : NestedAll pss n) (h' : Nested (lexemes qs) m) :
    Nested (lexemes ((if isAsync then word "async" ++ blank else []) ++ (parens (commas pss) ++
      (blank ++ (mark .arrow ++ (blank ++ qs)))))) (n + m) := by
  have hrest := infix_nested (l := .mark .arrow) rfl (parens_nested (commas_nested h)) h'
  cases isAsync with
  | true => exact front_nested (show Nested (lexemes (word "async" ++ blank)) 0 from word_nested "async") hrest
  | false => exact hrest

/-! ## The layout of a tree -/

open Node

attribute [local simp] ofExpr ofExprs ofItems ofKey ofProperties ofPattern ofPatterns ofPatternProps ofStmt ofOption

mutual

theorem expr_nested (e : Expr) (h : e.Legible true) : Nested (lexemes (expr e)) (dotted (ofExpr e)) := by
  match e with
  | .literal lit _ => exact .flat lit.isFlat_lexeme
  | .template parts es _ =>
      refine (template_nested (exprs_nested es h.2.2) ?_).cast (by simp [isDotted])
      rw [length_exprs]
      exact h.1
  | .array es _ => exact (list_nested (items_nested es true h) _).cast (by simp [isDotted])
  | .object ps _ =>
      exact (parens_nested (braces_nested (commas_nested (properties_nested ps h)))).cast (by simp [isDotted])
  | .identifier name _ => exact word_nested name
  | .member o k optional _ =>
      refine (append_nested (operand_nested (expr_nested o h.1)) (access_nested optional k h.2)).cast ?_
      simp
      omega
  | .call callee args optional _ =>
      have hargs := wrap_nested (p := .openParen) (q := .closeParen) rfl rfl (commas_nested (items_nested args false h.2))
      refine (append_nested (operand_nested (expr_nested callee h.1)) (link_nested optional hargs)).cast ?_
      simp [isDotted]
  | .arrow ps body isAsync _ =>
      refine (parens_nested (arrow_nested isAsync (patterns_nested .bind .param ps h.1) (arrowBody_nested body h.2))).cast ?_
      simp [isDotted]
  | .function _ => cases h
  | .this _ => cases h
  | .await e _ =>
      exact (front_nested (word_nested _) (blank_nested (expr_nested e h))).cast (by simp [isDotted])
  | .unary op e _ => exact (parens_nested (unary_nested op (expr_nested e h))).cast (by simp [isDotted])
  | .update op before p _ =>
      exact (parens_nested (update_nested op before (pattern_nested .assign .target p h.2))).cast (by simp [isDotted])
  | .binary op l r _ =>
      refine (parens_nested (infix_nested op.isFlat_lexeme (expr_nested l h.1) (expr_nested r h.2))).cast ?_
      simp [isDotted]
  | .logical op l r _ =>
      refine (parens_nested (infix_nested op.isFlat_lexeme (expr_nested l h.1) (expr_nested r h.2))).cast ?_
      simp [isDotted]
  | .conditional test yes no _ =>
      refine (parens_nested (conditional_nested (expr_nested test h.1) (expr_nested yes h.2.1) (expr_nested no h.2.2))).cast ?_
      simp [isDotted]
  | .assign op p e _ =>
      refine (parens_nested (infix_nested op.isFlat_lexeme (pattern_nested .assign .target p h.2.2.1)
        (expr_nested e h.2.2.2))).cast ?_
      simp [isDotted]
  | .sequence es _ =>
      exact (parens_nested (commas_nested (exprs_nested es h.2))).cast (by simp [isDotted])

theorem exprs_nested (es : List Expr) (h : LegibleExprs true es) : NestedAll (exprs es) (dotted (ofExprs es)) := by
  match es with
  | [] => exact .nil
  | e :: more =>
      rw [ofExprs, dotted_append]
      exact .cons (expr_nested e h.1) (exprs_nested more h.2)

theorem items_nested (es : List Item) (holes : Bool) (h : LegibleItems true holes es) :
    NestedAll (items es) (dotted (ofItems es)) := by
  match es with
  | [] => exact .nil
  | .expr e :: more =>
      rw [ofItems, dotted_append]
      exact .cons (expr_nested e h.1) (items_nested more holes h.2)
  | .spread e :: more =>
      rw [ofItems, dotted_append]
      exact .cons (front_nested (mark_nested rfl) (expr_nested e h.1)) (items_nested more holes h.2)
  | .hole :: more =>
      rw [ofItems, ← Nat.zero_add (dotted _)]
      exact .cons .nil (items_nested more holes h.2)

theorem access_nested (optional : Bool) (k : Key) (h : k.LegibleAccess true) :
    Nested (lexemes (access optional k)) ((k.isName && !optional).toNat + dotted (ofKey k)) := by
  match k with
  | .name id =>
      cases optional with
      | true => exact front_nested (mark_nested rfl) (word_nested id.name)
      | false => exact append_nested .dot (word_nested id.name)
  | .literal _ => cases h
  | .computed e =>
      refine (link_nested optional (wrap_nested rfl rfl (expr_nested e h))).cast ?_
      simp [Key.isName]

theorem key_nested (k : Key) (h : k.Legible true) : Nested (lexemes (key k)) (dotted (ofKey k)) := by
  match k with
  | .name id => exact word_nested id.name
  | .literal lit => exact .flat lit.isFlat_lexeme
  | .computed e => exact wrap_nested rfl rfl (expr_nested e h)

theorem properties_nested (ps : List Property) (h : LegibleProperties true ps) :
    NestedAll (properties ps) (dotted (ofProperties ps)) := by
  match ps with
  | [] => exact .nil
  | .init k e shorthand _ :: more =>
      rw [ofProperties, dotted_append, dotted_append, ← Nat.add_assoc]
      refine .cons ?_ (properties_nested more h.2.2.2)
      exact entry_nested (key_nested k h.2.1) (expr_nested e h.2.2.1) fun hshort => (h.1 hshort).isName
  | .spread e :: more =>
      rw [ofProperties, dotted_append]
      exact .cons (front_nested (mark_nested rfl) (parens_nested (expr_nested e h.1))) (properties_nested more h.2)

theorem arrowBody_nested (body : ArrowBody) (h : body.Legible true) :
    Nested (lexemes (arrowBody body)) (dotted (ofArrowBody body)) := by
  match body with
  | .expr e => exact expr_nested e h
  | .block b => exact block_nested b h

theorem pattern_nested (mode : Render.Mode) (place : Place) (p : Pattern) (h : p.Legible true mode place) :
    Nested (lexemes (pattern p)) (dotted (ofPattern p)) := by
  match p with
  | .ident id => exact word_nested id.name
  | .array elements _ =>
      exact (list_nested (patterns_nested mode .element elements h) _).cast (by simp [isDotted])
  | .object props _ =>
      exact (braces_nested (commas_nested (patternProps_nested mode props h))).cast (by simp [isDotted])
  | .assign target default =>
      refine (append_nested (pattern_nested mode .target target h.2.1) (blank_nested (front_nested
        (mark_nested (p := .assign) rfl) (blank_nested (expr_nested default h.2.2))))).cast ?_
      simp [isDotted]
  | .rest target =>
      exact (front_nested (mark_nested (p := .ellipsis) rfl) (pattern_nested mode .target target h.2)).cast
        (by simp [isDotted])
  | .member e => exact (expr_nested e h.2.2).cast (by simp [isDotted])
  | .hole => exact .nil

theorem patterns_nested (mode : Render.Mode) (place : Place) (ps : List Pattern) (h : LegiblePatterns true mode place ps) :
    NestedAll (patterns ps) (dotted (ofPatterns ps)) := by
  match ps with
  | [] => exact .nil
  | p :: more =>
      rw [ofPatterns, dotted_append]
      exact .cons (pattern_nested mode place p h.1) (patterns_nested mode place more h.2)

theorem patternProps_nested (mode : Render.Mode) (ps : List PatternProp) (h : LegiblePatternProps true mode ps) :
    NestedAll (patternProps ps) (dotted (ofPatternProps ps)) := by
  match ps with
  | [] => exact .nil
  | .init k p shorthand :: more =>
      rw [ofPatternProps, dotted_append, dotted_append, ← Nat.add_assoc]
      refine .cons ?_ (patternProps_nested mode more h.2.2.2)
      exact entry_nested (key_nested k h.2.1) (pattern_nested mode .entry p h.2.2.1) fun hshort => (h.1 hshort).1.isName
  | .rest p :: more =>
      rw [ofPatternProps, dotted_append]
      exact .cons (front_nested (mark_nested rfl) (pattern_nested mode .target p h.2.1)) (patternProps_nested mode more h.2.2)

theorem block_nested (b : Block) (h : b.Legible true) : Nested (lexemes (block b)) (dotted (ofBlock b)) := by
  match b with
  | .mk stmts _ => exact braces_nested (spaced_nested (statements_nested stmts h))

theorem statements_nested (ss : List Stmt) (h : LegibleStmts true ss) :
    NestedAll (statements ss) (dotted (ofStmts ss)) := by
  match ss with
  | [] => exact .nil
  | s :: more =>
      rw [ofStmts, dotted_append]
      exact .cons (statement_nested s h.1) (statements_nested more h.2)

theorem statement_nested (s : Stmt) (h : s.Legible true) : Nested (lexemes (statement s)) (dotted (ofStmt s)) := by
  match s with
  | .expr e _ => exact (append_nested (expr_nested e h) (mark_nested rfl)).cast (by simp [isDotted])
  | .declare d _ => exact (append_nested (varDecl_nested d h) (mark_nested rfl)).cast (by simp [isDotted])
  | .return none _ => exact front_nested (word_nested _) (mark_nested rfl)
  | .return (some e) _ =>
      refine (front_nested (word_nested _) (blank_nested (append_nested (expr_nested e h) (mark_nested rfl)))).cast ?_
      simp [isDotted]
  | .cond test yes none _ =>
      refine (front_nested (word_nested _) (blank_nested (append_nested (parens_nested (expr_nested test h.2.1))
        (blank_nested (statement_nested yes h.2.2))))).cast ?_
      simp [isDotted]
  | .cond test yes (some no) _ =>
      have hno := blank_nested (front_nested (word_nested "else") (blank_nested (statement_nested no h.2.2.2)))
      have hyes := blank_nested (append_nested (statement_nested yes h.2.2.1) hno)
      refine (front_nested (word_nested _) (blank_nested (append_nested (parens_nested (expr_nested test h.2.1))
        hyes))).cast ?_
      simp [isDotted]
  | .while test body _ =>
      refine (front_nested (word_nested _) (blank_nested (append_nested (parens_nested (expr_nested test h.2.1))
        (blank_nested (statement_nested body h.2.2))))).cast ?_
      simp [isDotted]
  | .doWhile body test _ =>
      have htest := append_nested (parens_nested (expr_nested test h.2.2)) (mark_nested (p := .semicolon) rfl)
      have hwhile := blank_nested (front_nested (word_nested "while") (blank_nested htest))
      refine (front_nested (word_nested _) (blank_nested (append_nested (statement_nested body h.2.1) hwhile))).cast ?_
      simp [isDotted]
  | .for init test update body _ =>
      have hupdate := front_nested (mark_nested (p := .semicolon) rfl) (blank_nested (optional_nested update h.2.2.2.1))
      have htest := front_nested (mark_nested (p := .semicolon) rfl) (blank_nested
        (append_nested (optional_nested test h.2.2.1) hupdate))
      have hclauses := parens_nested (append_nested (forInit_nested init h.2.1) htest)
      refine (front_nested (word_nested _) (blank_nested (append_nested hclauses (blank_nested
        (statement_nested body h.2.2.2.2))))).cast ?_
      simp [isDotted, Nat.add_assoc]
  | .block b => exact (block_nested b h).cast (by simp [isDotted])
  | .break _ => exact front_nested (word_nested _) (mark_nested rfl)
  | .continue _ => exact front_nested (word_nested _) (mark_nested rfl)
  | .debugger _ => exact front_nested (word_nested _) (mark_nested rfl)
  | .empty _ => exact mark_nested rfl
  | .function _ => cases h

theorem optional_nested (e : Option Expr) (h : LegibleOption true e) :
    Nested (lexemes (optional e)) (dotted (ofOption e)) := by
  match e with
  | none => exact .nil
  | some e => exact expr_nested e h

theorem forInit_nested (init : ForInit) (h : init.Legible true) :
    Nested (lexemes (forInit init)) (dotted (ofForInit init)) := by
  match init with
  | .absent => exact .nil
  | .declare d => exact varDecl_nested d h
  | .expr e => exact expr_nested e h

theorem varDecl_nested (d : VarDecl) (h : d.Legible true) : Nested (lexemes (varDecl d)) (dotted (ofVarDecl d)) := by
  match d with
  | .mk kind ds _ => exact front_nested (word_nested _) (blank_nested (commas_nested (declarators_nested ds h.2)))

theorem declarators_nested (ds : List Declarator) (h : LegibleDeclarators true ds) :
    NestedAll (declarators ds) (dotted (ofDeclarators ds)) := by
  match ds with
  | [] => exact .nil
  | .mk p init _ :: more =>
      rw [ofDeclarators, dotted_append, dotted_append, ← Nat.add_assoc]
      refine .cons (append_nested (pattern_nested .bind .target p h.1) ?_) (declarators_nested more h.2.2)
      exact initial_nested init h.2.1

theorem initial_nested (init : Option Expr) (h : LegibleOption true init) :
    Nested (lexemes (initial init)) (dotted (ofOption init)) := by
  match init with
  | none => exact .nil
  | some e => exact blank_nested (front_nested (mark_nested rfl) (blank_nested (expr_nested e h)))

end

end Layout
end FieldScript
