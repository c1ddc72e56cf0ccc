import FieldScript.Proofs.Render.Spelled
import FieldScript.Proofs.Syntax.Legible

/-!
# Rendering writes the layout of the spelled tree

Rendering looks every name up in the scopes that it keeps on the way. Spelling the names out first and laying out
the tree that is left gives the same text (`Written.block`), for every settled tree that can be written down.
-/

namespace FieldScript

open Token (Piece)
open Render (Mode Text)

namespace Layout

/-- The text of pieces. -/
def text (ps : List Piece) : String := String.ofList (Piece.chars ps)

@[simp] theorem text_nil : text [] = "" := rfl

@[simp] theorem text_append (ps qs : List Piece) : text (ps ++ qs) = text ps ++ text qs := by
  simp [text, String.ofList_append]

@[simp] theorem text_word (s : String) : text (word s) = s := by
  simp [text, word, Piece.chars, Token.Lexeme.word]

@[simp] theorem text_mark (p : Punct) : text (mark p) = p.text := by
  simp [text, mark, Piece.chars, Token.Lexeme.mark]

@[simp] theorem text_blank : text blank = " " := rfl

theorem text_cons_lexeme (l : Token.Lexeme) (ps : List Piece) :
    text (.lexeme l :: ps) = String.ofList l.chars ++ text ps := by
  simp [text, Piece.chars, String.ofList_append]

@[simp] theorem text_commas (pss : List (List Piece)) : text (commas pss) = Render.commas (pss.map text) := by
  induction pss with
  | nil => rfl
  | cons ps more ih =>
      cases more with
      | nil => simp [commas, Render.commas]
      | cons qs more =>
          simp only [Render.commas, List.map_cons] at ih
          simp only [commas, text_append, text_mark, text_blank, ih, Render.commas, List.map_cons,
            String.intercalate_cons_cons]
          simp [Punct.text, ← String.append_assoc]

@[simp] theorem text_spaced (pss : List (List Piece)) : text (spaced pss) = " ".intercalate (pss.map text) := by
  induction pss with
  | nil => rfl
  | cons ps more ih =>
      cases more with
      | nil => simp [spaced]
      | cons qs more =>
          simp only [List.map_cons] at ih
          simp only [spaced, text_append, text_blank, ih, List.map_cons, String.intercalate_cons_cons,
            String.append_assoc]

@[simp] theorem text_parens (ps : List Piece) : text (parens ps) = "(" ++ (text ps ++ ")") := by
  simp [parens, Punct.text]

@[simp] theorem text_list (pss : List (List Piece)) (endsWithHole : Bool) :
    text (list pss endsWithHole) = Render.listText (pss.map text) endsWithHole := by
  cases endsWithHole <;> simp [list, Render.listText, Punct.text, String.append_assoc]

@[simp] theorem text_braces (ps : List Piece) : text (braces ps) = "\x7b " ++ (text ps ++ " \x7d") := by
  simp [braces, Punct.text, ← String.append_assoc]

/-- The text of the pieces of a template behind its first delimiter. -/
theorem text_template {parts : List TemplatePart} {pss : List (List Piece)} (h : parts.length = pss.length + 1)
    (head : Bool) : text (template head parts pss) =
      (if head then "`" else "\x7d") ++ (Render.templateText parts (pss.map text) ++ "`") := by
  induction pss generalizing parts head with
  | nil =>
      obtain ⟨part, rfl⟩ := List.length_eq_one_iff.1 h
      cases head <;> simp [template, text_cons_lexeme, Token.Lexeme.piece, Token.TemplateEnd.chars,
        Render.templateText, String.ofList_append, String.ofList_cons]
  | cons ps pss ih =>
      obtain ⟨part, parts, rfl⟩ := List.exists_cons_of_length_eq_add_one h
      have hparts : parts.length = pss.length + 1 := by simpa using h
      cases head <;> simp [template, text_cons_lexeme, Token.Lexeme.piece, Token.TemplateEnd.chars,
        Render.templateText, String.ofList_append, String.ofList_cons, ih hparts, String.append_assoc]

end Layout

/-! ## Steps of rendering -/

/-- A step of rendering that succeeds: its result and the scopes behind it. -/
def Writes {α : Type} (step : Text α) (out : Render.Outside) (l : Locals) (a : α) (l' : Locals) : Prop :=
  step out l = .ok (a, l')

namespace Writes

variable {α β : Type} {out : Render.Outside} {l l' l'' : Locals}

theorem pure {a b : α} (h : a = b) : Writes (Pure.pure a) out l b l := by
  subst h
  rfl

/-- A step whose outcome is known. -/
theorem of_run {x : Text α} (a : α) (l' : Locals) (h : x out l = .ok (a, l')) : Writes x out l a l' := h

theorem pure_chars {a b : String} (h : a.toList = b.toList) : Writes (Pure.pure a) out l b l :=
  pure (String.toList_inj.1 h)

theorem bind {x : Text α} {f : α → Text β} {a : α} {b : β} (hx : Writes x out l a l') (hf : Writes (f a) out l' b l'') :
    Writes (x >>= f) out l b l'' := by
  show (x out l >>= fun r => f r.1 out r.2) = _
  rw [hx]
  exact hf

theorem inScope {step : Text α} {a : α} (h : Writes step out l.push a l') (hpop : l'.pop = l) :
    Writes (Render.inScope step) out l a l := by
  have hscope : Writes (Render.inScope step) out l a l'.pop :=
    bind (of_run () l.push rfl) (bind h (bind (of_run () l'.pop rfl) (pure rfl)))
  rwa [hpop] at hscope

/-- A key and a colon, or nothing. -/
theorem keyed {full : Bool} {k : Key} {t : String} {next : String → Text α} {a : α} (hkey : Writes (Render.key k) out l t l)
    (hnext : ∀ t', t' = (if full then t ++ ": " else "") → Writes (next t') out l a l') :
    Writes (if full = true then (do next (← (· ++ ": ") <$> Render.key k)) else (do next (← Pure.pure ""))) out l a l' := by
  cases full with
  | true =>
      rw [if_pos rfl, map_eq_pure_bind, bind_assoc]
      exact bind hkey (bind (pure rfl) (hnext _ rfl))
  | false => exact bind (pure rfl) (hnext "" rfl)

end Writes

/-! ## Names, operators and literals -/

namespace Layout

variable (out : Render.Outside) (l : Locals)

theorem text_name (x : String) (span : Span) :
    text (expr (Spelled.name out l x span)) = Render.spell x (Render.meaning out l x) := by
  unfold Spelled.name
  cases Render.meaning out l x <;> simp [expr, access, operand, Spelled.access, Render.spell, Punct.text, String.append_assoc]

theorem text_target (id : Ident) :
    text (pattern (Spelled.target out l id)) = Render.spell id.name (Render.meaning out l id.name) := by
  unfold Spelled.target
  cases Render.meaning out l id.name <;>
    simp [pattern, expr, access, operand, Spelled.access, Render.spell, Punct.text, String.append_assoc]

/-- A name is written as it is just if it is looked up in none of the two objects. -/
theorem spell_ne (x : String) (m : Render.Meaning) : (Render.spell x m != x) = (m != .plain) := by
  have hlonger : ∀ object : String, object ++ "." ++ x ≠ x := by
    intro object heq
    have hlength := congrArg String.length heq
    simp [String.length_append] at hlength
  cases m with
  | plain => exact bne_self_eq_false x
  | capability => exact bne_iff_ne.2 (hlonger Render.apiObject)
  | argument => exact bne_iff_ne.2 (hlonger Render.dataObject)

@[simp] theorem text_literal (lit : Literal) : text [.lexeme lit.lexeme] = lit.raw := by
  obtain ⟨value, raw⟩ := lit
  cases value with
  | bool b => cases b <;> simp [text_cons_lexeme, Literal.lexeme]
  | _ => simp [text_cons_lexeme, Literal.lexeme, Token.Lexeme.number, Token.Lexeme.quoted]

theorem text_binary (op : BinaryOp) (ps : List Piece) : text (.lexeme op.lexeme :: ps) = op.text ++ text ps := by
  rw [text_cons_lexeme]
  cases op <;> rfl

theorem text_logical (op : LogicalOp) (ps : List Piece) : text (.lexeme op.lexeme :: ps) = op.text ++ text ps := by
  rw [text_cons_lexeme]
  cases op <;> rfl

theorem text_unary (op : UnaryOp) (ps : List Piece) : text (.lexeme op.lexeme :: ps) = op.text ++ text ps := by
  rw [text_cons_lexeme]
  cases op <;> rfl

theorem text_update (op : UpdateOp) (ps : List Piece) : text (.lexeme op.lexeme :: ps) = op.text ++ text ps := by
  rw [text_cons_lexeme]
  cases op <;> rfl

theorem text_assign {op : AssignOp} (h : op.punct?.isSome = true) (ps : List Piece) :
    text (.lexeme op.lexeme :: ps) = op.text ++ text ps := by
  rw [text_cons_lexeme]
  cases op with
  | assign => rfl
  | binary op => cases op <;> first | rfl | cases h
  | logical op => cases op <;> rfl

/-- Spelling a name out makes no `await` of it. -/
theorem text_operand (e : Expr) (ps : List Piece) :
    text (operand (Spelled.expr out l e) ps) = Render.operandText e (text ps) := by
  cases e with
  | identifier x span =>
      simp only [Spelled.expr, Spelled.name]
      cases Render.meaning out l x <;> rfl
  | await e span => simp [Spelled.expr, operand, Render.operandText, String.append_assoc]
  | _ => rfl

/-- Spelling names out leaves what is left out where it is. -/
theorem endsWithHole_items (es : List Item) :
    (Spelled.items out l es).getLast?.any Render.Item.isHole = es.getLast?.any Render.Item.isHole := by
  induction es with
  | nil => rfl
  | cons e more ih =>
      cases more with
      | nil => cases e <;> rfl
      | cons e' more =>
          cases e <;> cases e' <;> simpa [Spelled.items, List.getLast?_cons_cons] using ih

theorem endsWithHole_patterns (mode : Mode) (ps : List Pattern) :
    (Spelled.patterns out l mode ps).getLast?.any Render.Pattern.isHole = ps.getLast?.any Render.Pattern.isHole := by
  induction ps with
  | nil => rfl
  | cons p more ih =>
      cases more with
      | nil =>
          cases p with
          | ident id =>
              cases mode with
              | bind => rfl
              | assign =>
                  simp only [Spelled.patterns, Spelled.pattern, Spelled.target]
                  cases Render.meaning out l id.name <;> rfl
          | _ => rfl
      | cons p' more => simpa [Spelled.patterns, List.getLast?_cons_cons] using ih

end Layout

/-! ## Trees -/

namespace Written

open Layout (text)

variable (out : Render.Outside)

theorem declaredNames_cons (p : Pattern) (init : Option Expr) (s : Span) (more : List Declarator) :
    declaredNames (.mk p init s :: more) = p.boundNames ++ declaredNames more := rfl

/-- A statement declares in the innermost scope alone. -/
theorem pop_behind (l : Locals) : ∀ s : Stmt, (Awaited.behind l s).pop = l.pop
  | .declare (.mk _ _ _) _ => Locals.pop_declareAll l _
  | .cond _ yes none _ => pop_behind l yes
  | .cond _ yes (some no) _ => (pop_behind (Awaited.behind l yes) no).trans (pop_behind l yes)
  | .while _ body _ => pop_behind l body
  | .doWhile body _ _ => pop_behind l body
  | .expr _ _ => rfl
  | .return _ _ => rfl
  | .for _ _ _ _ _ => rfl
  | .block _ => rfl
  | .break _ => rfl
  | .continue _ => rfl
  | .debugger _ => rfl
  | .empty _ => rfl
  | .function _ => rfl

theorem pop_behindInit (l : Locals) : ∀ init : ForInit, (Awaited.behindInit l init).pop = l.pop
  | .absent => rfl
  | .declare (.mk _ _ _) => Locals.pop_declareAll l _
  | .expr _ => rfl

/-- The text of an expression that may be left out. -/
def optionalText : Option Expr → Text String
  | some e => Render.expr e
  | none => return ""

/-- The text of the first clause of a loop. -/
def initText : ForInit → Text String
  | .absent => return ""
  | .declare d => Render.varDecl d
  | .expr e => Render.expr e

theorem statement_for (init : ForInit) (test update : Option Expr) (body : Stmt) (s : Span) :
    Render.statement (.for init test update body s) = Render.inScope (do
      let init ← initText init
      let test ← optionalText test
      let update ← optionalText update
      let body ← Render.statement body
      return "for (" ++ init ++ "; " ++ test ++ "; " ++ update ++ ") " ++ body) := by
  cases init <;> cases test <;> cases update <;> rfl

theorem identifier (l : Locals) (x : String) (s : Span) :
    Writes (Render.expr (.identifier x s)) out l (text (Layout.expr (Spelled.expr out l (.identifier x s)))) l := by
  rw [Spelled.expr, Layout.text_name]
  rfl

mutual

/-- Rendering an expression writes its layout. -/
theorem expr (l : Locals) : ∀ e : Expr, e.Legible true →
    Writes (Render.expr e) out l (text (Layout.expr (Spelled.expr out l e))) l
  | .literal lit _, _ => .pure (by simp [Spelled.expr, Layout.expr])
  | .template parts es _, h => by
      refine .bind (exprs l es h.2.2) (.pure ?_)
      have hlength : parts.length = (Layout.exprs (Spelled.exprs out l es)).length + 1 := by
        rw [Layout.length_exprs, Spelled.length_exprs, h.1]
      simp [Spelled.expr, Layout.expr, Layout.text_template hlength, String.append_assoc]
  | .array es _, h => by
      refine .bind (items l es true h) (.pure ?_)
      simp [Spelled.expr, Layout.expr, Layout.endsWithHole_items]
  | .object ps _, h => by
      refine .bind (properties l ps h) (.pure_chars ?_)
      simp [Spelled.expr, Layout.expr]
  | .identifier x s, _ => identifier out l x s
  | .member o (.name id) optional s, h => by
      refine .bind (expr l o h.1) (.pure ?_)
      cases optional <;>
        simp [Spelled.expr, Spelled.key, Layout.expr, Layout.access, Layout.text_operand, Punct.text, String.append_assoc]
  | .member o (.literal lit) optional s, h => h.2.elim
  | .member o (.computed e) optional s, h => by
      refine .bind (expr l o h.1) (.bind (expr l e h.2) (.pure ?_))
      cases optional <;>
        simp [Spelled.expr, Spelled.key, Layout.expr, Layout.access, Layout.link, Layout.text_operand, Punct.text,
          ← String.append_assoc]
  | .call callee args optional s, h => by
      refine .bind (expr l callee h.1) (.bind (items l args false h.2) (.pure ?_))
      cases optional <;>
        simp [Spelled.expr, Layout.expr, Layout.link, Layout.text_operand, Punct.text, ← String.append_assoc]
  | .arrow ps body isAsync s, h => by
      refine .inScope (.bind (params l.push ps h.1) (.bind (arrowBody _ body h.2) (.pure_chars ?_)))
        (by rw [Locals.pop_declareAll, Locals.pop_push])
      cases isAsync <;> simp [Spelled.expr, Layout.expr, Punct.text]
  | .function fn, h => by cases h
  | .this s, h => by cases h
  | .await e s, h => .bind (expr l e h) (.pure (by simp [Spelled.expr, Layout.expr, ← String.append_assoc]))
  | .unary op e s, h => by
      refine .bind (expr l e h) (.pure ?_)
      cases hop : op.isWord <;> simp [Spelled.expr, Layout.expr, Layout.text_unary, hop, ← String.append_assoc]
  | .update op before p s, h => by
      refine .bind (pattern l .assign .target p h.2) (.pure ?_)
      cases before <;> simp [Spelled.expr, Layout.expr, Layout.text_update, ← String.append_assoc]
  | .binary op left right s, h => by
      refine .bind (expr l left h.1) (.bind (expr l right h.2) (.pure ?_))
      simp [Spelled.expr, Layout.expr, Layout.text_binary, ← String.append_assoc]
  | .logical op left right s, h => by
      refine .bind (expr l left h.1) (.bind (expr l right h.2) (.pure ?_))
      simp [Spelled.expr, Layout.expr, Layout.text_logical, ← String.append_assoc]
  | .conditional test yes no s, h => by
      refine .bind (expr l test h.1) (.bind (expr l yes h.2.1) (.bind (expr l no h.2.2) (.pure_chars ?_)))
      simp [Spelled.expr, Layout.expr, Punct.text]
  | .assign op p e s, h => by
      refine .bind (pattern l .assign .target p h.2.2.1) (.bind (expr l e h.2.2.2) (.pure ?_))
      simp [Spelled.expr, Layout.expr, Layout.text_assign h.1, ← String.append_assoc]
  | .sequence es s, h => .bind (exprs l es h.2) (.pure (by
      simp [Spelled.expr, Layout.expr, ← String.append_assoc]))

theorem exprs (l : Locals) : ∀ es : List Expr, LegibleExprs true es →
    Writes (Render.exprs es) out l ((Layout.exprs (Spelled.exprs out l es)).map text) l
  | [], _ => .pure rfl
  | e :: more, h => .bind (expr l e h.1) (.bind (exprs l more h.2) (.pure rfl))

theorem items (l : Locals) : ∀ (es : List Item) (holes : Bool), LegibleItems true holes es →
    Writes (Render.items es) out l ((Layout.items (Spelled.items out l es)).map text) l
  | [], _, _ => .pure rfl
  | .expr e :: more, holes, h => .bind (expr l e h.1) (.bind (items l more holes h.2) (.pure rfl))
  | .spread e :: more, holes, h => .bind (expr l e h.1) (.bind (items l more holes h.2) (.pure (by
      simp [Spelled.items, Layout.items, Punct.text])))
  | .hole :: more, holes, h => .bind (items l more holes h.2) (.pure rfl)

theorem key (l : Locals) : ∀ k : Key, k.Legible true →
    Writes (Render.key k) out l (text (Layout.key (Spelled.key out l k))) l
  | .name id, _ => .pure (by simp [Spelled.key, Layout.key])
  | .literal lit, _ => .pure (by simp [Spelled.key, Layout.key])
  | .computed e, h => .bind (expr l e h) (.pure (by simp [Spelled.key, Layout.key, Punct.text, ← String.append_assoc]))

theorem properties (l : Locals) : ∀ ps : List Property, LegibleProperties true ps →
    Writes (Render.properties ps) out l ((Layout.properties (Spelled.properties out l ps)).map text) l
  | [], _ => .pure rfl
  | .init k e false s :: more, h => by
      refine .bind (key l k h.2.1) (.bind (expr l e h.2.2.1) (.bind (.pure rfl)
        (.bind (properties l more h.2.2.2) (.pure ?_))))
      simp [Spelled.properties, Layout.properties, Punct.text, ← String.append_assoc]
  | .init k e true s :: more, h => by
      obtain ⟨id, span, rfl, rfl, -⟩ := h.1 rfl
      refine .bind (identifier out l id.name span) (.bind (.of_run out l rfl) ?_)
      have hshort : Spelled.staysShort out (.name id) =
          !(out.capabilities.contains id.name || out.args.contains id.name) := rfl
      dsimp only
      cases hout : out.capabilities.contains id.name || out.args.contains id.name with
      | true =>
          rw [hout] at hshort
          refine .bind (.pure rfl) (.bind (properties l more h.2.2.2) (.pure ?_))
          simp [Spelled.properties, hshort, Spelled.key, Layout.properties, Layout.key, Punct.text,
            ← String.append_assoc]
      | false =>
          rw [hout] at hshort
          refine .bind (.pure rfl) (.bind (properties l more h.2.2.2) (.pure ?_))
          simp [Spelled.properties, hshort, Layout.properties]
  | .spread e :: more, h => .bind (expr l e h.1) (.bind (properties l more h.2) (.pure (by
      simp [Spelled.properties, Layout.properties, Punct.text, ← String.append_assoc])))

theorem arrowBody (l : Locals) : ∀ body : ArrowBody, body.Legible true →
    Writes (Render.arrowBody body) out l (text (Layout.arrowBody (Spelled.arrowBody out l body))) l
  | .expr e, h => expr l e h
  | .block b, h => block l b h

theorem params (l : Locals) : ∀ ps : List Pattern, LegiblePatterns true .bind .param ps →
    Writes (Render.params ps) out l ((Layout.patterns (Spelled.params out l ps)).map text)
      (l.declareAll (Pattern.boundNamesOf ps))
  | [], _ => .pure rfl
  | p :: more, h => by
      rw [Pattern.boundNamesOf, Locals.declareAll_append]
      exact .bind (pattern l .bind .param p h.1) (.bind (.of_run () (l.declareAll p.boundNames) rfl)
        (.bind (params _ more h.2) (.pure rfl)))

theorem pattern (l : Locals) (mode : Mode) (place : Place) : ∀ p : Pattern, p.Legible true mode place →
    Writes (Render.pattern mode p) out l (text (Layout.pattern (Spelled.pattern out l mode p))) l
  | .ident id, _ => by
      cases mode with
      | bind => exact .pure (by simp [Spelled.pattern, Layout.pattern])
      | assign =>
          rw [Spelled.pattern, Layout.text_target]
          rfl
  | .array elements s, h => by
      refine .bind (patterns l mode .element elements h) (.pure ?_)
      simp [Spelled.pattern, Layout.pattern, Layout.endsWithHole_patterns]
  | .object props s, h => .bind (patternProps l mode props h) (.pure (by
      simp [Spelled.pattern, Layout.pattern, ← String.append_assoc]))
  | .assign p default, h => .bind (pattern l mode .target p h.2.1) (.bind (expr l default h.2.2) (.pure (by
      simp [Spelled.pattern, Layout.pattern, Punct.text, ← String.append_assoc])))
  | .rest p, h => .bind (pattern l mode .target p h.2) (.pure (by
      simp [Spelled.pattern, Layout.pattern, Punct.text]))
  | .member e, h => expr l e h.2.2
  | .hole, _ => .pure rfl

theorem patterns (l : Locals) (mode : Mode) (place : Place) : ∀ ps : List Pattern, LegiblePatterns true mode place ps →
    Writes (Render.patterns mode ps) out l ((Layout.patterns (Spelled.patterns out l mode ps)).map text) l
  | [], _ => .pure rfl
  | p :: more, h => .bind (pattern l mode place p h.1) (.bind (patterns l mode place more h.2) (.pure rfl))

theorem patternProps (l : Locals) (mode : Mode) : ∀ ps : List PatternProp, LegiblePatternProps true mode ps →
    Writes (Render.patternProps mode ps) out l ((Layout.patternProps (Spelled.patternProps out l mode ps)).map text) l
  | [], _ => .pure rfl
  | .init k p shorthand :: more, h => by
      have hkey := key l k h.2.1
      have hpattern := pattern l mode .entry p h.2.2.1
      have hmore := patternProps l mode more h.2.2.2
      have hshort : ∀ full, full = !(shorthand && Spelled.staysShortIn out l mode k) →
          ∀ t, t = (if full then text (Layout.key (Spelled.key out l k)) ++ ": " else "") →
          Writes (do
            let v ← Render.pattern mode p
            return (t ++ v) :: (← Render.patternProps mode more)) out l
            ((Layout.patternProps (Spelled.patternProps out l mode (.init k p shorthand :: more))).map text) l := by
        rintro _ rfl _ rfl
        refine .bind hpattern (.bind hmore (.pure ?_))
        cases hfull : shorthand && Spelled.staysShortIn out l mode k <;>
          simp [Spelled.patternProps, Layout.patternProps, hfull, Punct.text, ← String.append_assoc]
      cases k with
      | name id =>
          refine .bind (.of_run (Render.spell id.name (Render.meaning out l id.name)) l rfl) (.bind (.pure rfl) ?_)
          refine .keyed hkey (hshort _ ?_)
          rw [Layout.spell_ne, Bool.not_and]
          simp [Spelled.staysShortIn]
      | literal lit => exact .bind (.pure rfl) (.keyed hkey (hshort _ (by simp [Spelled.staysShortIn])))
      | computed e => exact .bind (.pure rfl) (.keyed hkey (hshort _ (by simp [Spelled.staysShortIn])))
  | .rest p :: more, h => .bind (pattern l mode .target p h.2.1) (.bind (patternProps l mode more h.2.2) (.pure (by
      simp [Spelled.patternProps, Layout.patternProps, Punct.text])))

theorem block (l : Locals) : ∀ b : Block, b.Legible true →
    Writes (Render.block b) out l (text (Layout.block (Spelled.block out l b))) l
  | .mk stmts s, h => by
      obtain ⟨l', hpop, hstmts⟩ := statements l.push stmts h
      exact .inScope (.bind hstmts (.pure (by
        simp [Spelled.block, Layout.block, ← String.append_assoc]))) hpop

theorem statements (l : Locals) : ∀ ss : List Stmt, LegibleStmts true ss →
    ∃ l', l'.pop = l.pop ∧
      Writes (Render.statements ss) out l ((Layout.statements (Spelled.statements out l ss)).map text) l'
  | [], _ => ⟨l, rfl, .pure rfl⟩
  | s :: more, h => by
      obtain ⟨l', hpop, hmore⟩ := statements (Awaited.behind l s) more h.2
      exact ⟨l', hpop.trans (pop_behind l s), .bind (statement l s h.1) (.bind hmore (.pure rfl))⟩

theorem statement (l : Locals) : ∀ s : Stmt, s.Legible true →
    Writes (Render.statement s) out l (text (Layout.statement (Spelled.statement out l s))) (Awaited.behind l s)
  | .expr e s, h => .bind (expr l e h) (.pure (by simp [Spelled.statement, Layout.statement, Punct.text]))
  | .declare (.mk kind ds dspan) s, h => .bind (varDecl l (.mk kind ds dspan) h) (.pure (by
      simp [Spelled.statement, Layout.statement, Punct.text]))
  | .return none s, _ => .pure rfl
  | .return (some e) s, h => .bind (expr l e h) (.pure (by
      simp [Spelled.statement, Spelled.optional, Layout.statement, Punct.text, ← String.append_assoc]))
  | .cond test yes none s, h => .bind (expr l test h.2.1) (.bind (statement l yes h.2.2) (.pure_chars (by
      simp [Spelled.statement, Layout.statement])))
  | .cond test yes (some no) s, h => .bind (expr l test h.2.1) (.bind (statement l yes h.2.2.1)
      (.bind (statement _ no h.2.2.2) (.pure_chars (by simp [Spelled.statement, Layout.statement]))))
  | .while test body s, h => .bind (expr l test h.2.1) (.bind (statement l body h.2.2) (.pure_chars (by
      simp [Spelled.statement, Layout.statement])))
  | .doWhile body test s, h => .bind (statement l body h.2.1) (.bind (expr _ test h.2.2) (.pure_chars (by
      simp [Spelled.statement, Layout.statement, Punct.text])))
  | .for init test update body s, h => by
      rw [statement_for]
      refine .inScope (.bind (forInit l.push init h.2.1) (.bind (optional _ test h.2.2.1)
        (.bind (optional _ update h.2.2.2.1) (.bind (statement _ body h.2.2.2.2) (.pure_chars ?_))))) ?_
      · simp [Spelled.statement, Layout.statement, Punct.text]
      · rw [pop_behind, pop_behindInit, Locals.pop_push]
  | .block b, h => block l b h
  | .break s, _ => .pure (by simp [Spelled.statement, Layout.statement, Punct.text])
  | .continue s, _ => .pure (by simp [Spelled.statement, Layout.statement, Punct.text])
  | .debugger s, _ => .pure (by simp [Spelled.statement, Layout.statement, Punct.text])
  | .empty s, _ => .pure rfl
  | .function fn, h => by cases h

theorem optional (l : Locals) : ∀ e : Option Expr, LegibleOption true e →
    Writes (optionalText e) out l (text (Layout.optional (Spelled.optional out l e))) l
  | none, _ => .pure rfl
  | some e, h => expr l e h

theorem forInit (l : Locals) : ∀ init : ForInit, init.Legible true →
    Writes (initText init) out l (text (Layout.forInit (Spelled.forInit out l init))) (Awaited.behindInit l init)
  | .absent, _ => .pure rfl
  | .declare (.mk kind ds s), h => varDecl l (.mk kind ds s) h
  | .expr e, h => expr l e h

theorem varDecl (l : Locals) : ∀ d : VarDecl, d.Legible true →
    Writes (Render.varDecl d) out l (text (Layout.varDecl (Spelled.varDecl out l d))) (Awaited.behindInit l (.declare d))
  | .mk kind ds s, h => .bind (declarators l ds h.2) (.pure (by
      simp [Spelled.varDecl, Layout.varDecl, ← String.append_assoc]))

theorem declarators (l : Locals) : ∀ ds : List Declarator, LegibleDeclarators true ds →
    Writes (Render.declarators ds) out l ((Layout.declarators (Spelled.declarators out l ds)).map text)
      (l.declareAll (declaredNames ds))
  | [], _ => .pure rfl
  | .mk p none s :: more, h => by
      rw [declaredNames_cons, Locals.declareAll_append]
      refine .bind (pattern l .bind .target p h.1) (.bind (.pure rfl)
        (.bind (.of_run () (l.declareAll p.boundNames) rfl) (.bind (declarators _ more h.2.2) (.pure ?_))))
      simp [Spelled.declarators, Spelled.optional, Layout.declarators, Layout.initial]
  | .mk p (some e) s :: more, h => by
      rw [declaredNames_cons, Locals.declareAll_append]
      refine .bind (pattern l .bind .target p h.1) (.bind (expr l e h.2.1) (.bind (.pure rfl)
        (.bind (.of_run () (l.declareAll p.boundNames) rfl) (.bind (declarators _ more h.2.2) (.pure ?_)))))
      simp [Spelled.declarators, Spelled.optional, Layout.declarators, Layout.initial, Punct.text,
        ← String.append_assoc]

end

end Written
end FieldScript
