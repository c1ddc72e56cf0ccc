import FieldScript.Proofs.Settle.Scopes
import FieldScript.Proofs.Syntax.Legible

/-!
# Trees with their names spelled out

Rendering writes a capability or an argument as a member of an object. The *spelled* form of a tree has these
accesses in the place of the names, so that nothing is left to look up: what a spelled tree means does not depend
on capabilities, arguments or scopes. A short entry of an object whose name is a capability or an argument, or of
a pattern whose name is spelled out, becomes an entry in full.

An access to one of the two objects is an expression like any other and can be assigned to, so a tree that can be
written down can be written down with its names spelled out.
-/

namespace FieldScript.Spelled

open Render (Mode Meaning meaning apiObject dataObject)

/-- A member of one of the two objects. -/
def access (object name : String) (span : Span) : Expr :=
  .member (.identifier object span) (.name ⟨name, span⟩) false span

/-- A name as it is used. -/
def name (out : Render.Outside) (l : Locals) (name : String) (span : Span) : Expr :=
  match meaning out l name with
  | .plain => .identifier name span
  | .capability => access apiObject name span
  | .argument => access dataObject name span

/-- A name as it is assigned to. -/
def target (out : Render.Outside) (l : Locals) (id : Ident) : Pattern :=
  match meaning out l id.name with
  | .plain => .ident id
  | .capability => .member (access apiObject id.name id.span)
  | .argument => .member (access dataObject id.name id.span)

/-- Whether a short entry of an object stays short. -/
def staysShort (out : Render.Outside) : Key → Bool
  | .name id => !(out.capabilities.contains id.name || out.args.contains id.name)
  | _ => true

/-- Whether a short entry of a pattern stays short. -/
def staysShortIn (out : Render.Outside) (l : Locals) (mode : Mode) : Key → Bool
  | .name id => !(mode == .assign && meaning out l id.name != .plain)
  | _ => true

mutual

/-- An expression with its names spelled out. -/
def expr (out : Render.Outside) (l : Locals) : Expr → Expr
  | .literal lit s => .literal lit s
  | .template parts es s => .template parts (exprs out l es) s
  | .array es s => .array (items out l es) s
  | .object ps s => .object (properties out l ps) s
  | .identifier x s => name out l x s
  | .member o k optional s => .member (expr out l o) (key out l k) optional s
  | .call callee args optional s => .call (expr out l callee) (items out l args) optional s
  | .arrow ps body isAsync s =>
    .arrow (params out l.push ps) (arrowBody out (l.push.declareAll (Pattern.boundNamesOf ps)) body) isAsync s
  | .function fn => .function fn
  | .this s => .this s
  | .await e s => .await (expr out l e) s
  | .unary op e s => .unary op (expr out l e) s
  | .update op before p s => .update op before (pattern out l .assign p) s
  | .binary op left right s => .binary op (expr out l left) (expr out l right) s
  | .logical op left right s => .logical op (expr out l left) (expr out l right) s
  | .conditional test yes no s => .conditional (expr out l test) (expr out l yes) (expr out l no) s
  | .assign op p e s => .assign op (pattern out l .assign p) (expr out l e) s
  | .sequence es s => .sequence (exprs out l es) s

/-- Expressions with their names spelled out. -/
def exprs (out : Render.Outside) (l : Locals) : List Expr → List Expr
  | [] => []
  | e :: more => expr out l e :: exprs out l more

/-- Elements or arguments with their names spelled out. -/
def items (out : Render.Outside) (l : Locals) : List Item → List Item
  | [] => []
  | .expr e :: more => .expr (expr out l e) :: items out l more
  | .spread e :: more => .spread (expr out l e) :: items out l more
  | .hole :: more => .hole :: items out l more

/-- A key with its names spelled out. -/
def key (out : Render.Outside) (l : Locals) : Key → Key
  | .name id => .name id
  | .literal lit => .literal lit
  | .computed e => .computed (expr out l e)

/-- The entries of an object with their names spelled out. -/
def properties (out : Render.Outside) (l : Locals) : List Property → List Property
  | [] => []
  | .init k e shorthand s :: more =>
    .init (key out l k) (expr out l e) (shorthand && staysShort out k) s :: properties out l more
  | .spread e :: more => .spread (expr out l e) :: properties out l more

/-- The body of an arrow function with its names spelled out. -/
def arrowBody (out : Render.Outside) (l : Locals) : ArrowBody → ArrowBody
  | .expr e => .expr (expr out l e)
  | .block b => .block (block out l b)

/-- Parameters with their names spelled out, each visible to the ones behind it. -/
def params (out : Render.Outside) (l : Locals) : List Pattern → List Pattern
  | [] => []
  | p :: more => pattern out l .bind p :: params out (l.declareAll p.boundNames) more

/-- A pattern with its names spelled out. Those it binds stay as they are. -/
def pattern (out : Render.Outside) (l : Locals) (mode : Mode) : Pattern → Pattern
  | .ident id =>
    match mode with
    | .bind => .ident id
    | .assign => target out l id
  | .array elements s => .array (patterns out l mode elements) s
  | .object props s => .object (patternProps out l mode props) s
  | .assign p default => .assign (pattern out l mode p) (expr out l default)
  | .rest p => .rest (pattern out l mode p)
  | .member e => .member (expr out l e)
  | .hole => .hole

/-- The elements of an array pattern with their names spelled out. -/
def patterns (out : Render.Outside) (l : Locals) (mode : Mode) : List Pattern → List Pattern
  | [] => []
  | p :: more => pattern out l mode p :: patterns out l mode more

/-- The entries of an object pattern with their names spelled out. -/
def patternProps (out : Render.Outside) (l : Locals) (mode : Mode) : List PatternProp → List PatternProp
  | [] => []
  | .init k p shorthand :: more =>
    .init (key out l k) (pattern out l mode p) (shorthand && staysShortIn out l mode k) ::
      patternProps out l mode more
  | .rest p :: more => .rest (pattern out l mode p) :: patternProps out l mode more

/-- Statements between braces with their names spelled out. -/
def block (out : Render.Outside) (l : Locals) : Block → Block
  | .mk stmts s => .mk (statements out l.push stmts) s

/-- Statements with their names spelled out, each behind the declarations in front of it. -/
def statements (out : Render.Outside) (l : Locals) : List Stmt → List Stmt
  | [] => []
  | s :: more => statement out l s :: statements out (Awaited.behind l s) more

/-- A statement with its names spelled out. -/
def statement (out : Render.Outside) (l : Locals) : Stmt → Stmt
  | .expr e s => .expr (expr out l e) s
  | .declare d s => .declare (varDecl out l d) s
  | .return e s => .return (optional out l e) s
  | .cond test yes none s => .cond (expr out l test) (statement out l yes) none s
  | .cond test yes (some no) s =>
    .cond (expr out l test) (statement out l yes) (some (statement out (Awaited.behind l yes) no)) s
  | .while test body s => .while (expr out l test) (statement out l body) s
  | .doWhile body test s => .doWhile (statement out l body) (expr out (Awaited.behind l body) test) s
  | .for init test update body s =>
    .for (forInit out l.push init) (optional out (Awaited.behindInit l.push init) test)
      (optional out (Awaited.behindInit l.push init) update)
      (statement out (Awaited.behindInit l.push init) body) s
  | .block b => .block (block out l b)
  | .break s => .break s
  | .continue s => .continue s
  | .debugger s => .debugger s
  | .empty s => .empty s
  | .function fn => .function fn

/-- An expression that may be left out, with its names spelled out. -/
def optional (out : Render.Outside) (l : Locals) : Option Expr → Option Expr
  | none => none
  | some e => some (expr out l e)

/-- The first clause of a `for` statement with its names spelled out. -/
def forInit (out : Render.Outside) (l : Locals) : ForInit → ForInit
  | .absent => .absent
  | .declare d => .declare (varDecl out l d)
  | .expr e => .expr (expr out l e)

/-- A declaration with its names spelled out. -/
def varDecl (out : Render.Outside) (l : Locals) : VarDecl → VarDecl
  | .mk kind ds s => .mk kind (declarators out l ds) s

/-- Declarators with their names spelled out, each behind the names of the ones in front of it. -/
def declarators (out : Render.Outside) (l : Locals) : List Declarator → List Declarator
  | [] => []
  | .mk p init s :: more =>
    .mk (pattern out l .bind p) (optional out l init) s :: declarators out (l.declareAll p.boundNames) more

end

theorem length_exprs (out : Render.Outside) (l : Locals) (es : List Expr) : (exprs out l es).length = es.length := by
  induction es with
  | nil => rfl
  | cons e more ih => simp [exprs, ih]

/-! ## Spelling names out keeps trees legible -/

section

variable (out : Render.Outside) (settled : Bool)

theorem isName_apiObject : IsName apiObject :=
  ⟨⟨'$', ['a', 'p', 'i'], rfl, by decide, List.all_eq_true.1 (by decide)⟩, .inl rfl⟩

theorem isName_dataObject : IsName dataObject :=
  ⟨⟨'$', ['d', 'a', 't', 'a'], rfl, by decide, List.all_eq_true.1 (by decide)⟩, .inl rfl⟩

theorem name_legible (l : Locals) {x : String} (h : IsName x) (span : Span) : (name out l x span).Legible settled := by
  unfold name
  cases meaning out l x with
  | plain => exact h
  | capability => exact ⟨isName_apiObject, h.1⟩
  | argument => exact ⟨isName_dataObject, h.1⟩

theorem target_legible (l : Locals) {id : Ident} (h : IsName id.name) (place : Place) :
    (target out l id).Legible settled .assign place := by
  unfold target
  cases meaning out l id.name with
  | plain => exact h
  | capability => exact ⟨rfl, rfl, isName_apiObject, h.1⟩
  | argument => exact ⟨rfl, rfl, isName_dataObject, h.1⟩

theorem isSimple_target (l : Locals) (id : Ident) : (target out l id).isSimple = true := by
  unfold target
  cases meaning out l id.name <;> rfl

theorem isSimple_pattern (l : Locals) {p : Pattern} (h : p.isSimple = true) :
    (pattern out l .assign p).isSimple = true := by
  cases p with
  | ident id => exact isSimple_target out l id
  | member e => rfl
  | _ => cases h

theorem isIdent_pattern (l : Locals) {p : Pattern} (h : p.isIdent = true) : (pattern out l .bind p).isIdent = true := by
  cases p with
  | ident id => rfl
  | _ => cases h

theorem isPlainMember_expr (l : Locals) {e : Expr} (h : e.isPlainMember = true) :
    (expr out l e).isPlainMember = true := by
  cases e with
  | member o k optional span =>
      cases optional with
      | false => rfl
      | true => cases h
  | _ => cases h

theorem isBlock_statement (l : Locals) {s : Stmt} (h : s.isBlock = true) : (statement out l s).isBlock = true := by
  cases s with
  | block b => rfl
  | _ => cases h

/-- An entry that stays short has a value of its own name. -/
theorem property_isShort (l : Locals) {k : Key} {e : Expr} (h : Property.IsShort k e) (hstays : staysShort out k = true) :
    Property.IsShort (key out l k) (expr out l e) := by
  obtain ⟨id, span, rfl, rfl, hword⟩ := h
  refine ⟨id, span, rfl, ?_, hword⟩
  simp only [staysShort, Bool.not_eq_true', Bool.or_eq_false_iff] at hstays
  simp only [expr, name, meaning, hstays]
  split <;> simp_all

/-- The same of an entry of a pattern. -/
theorem patternProp_isShort (l : Locals) {mode : Mode} {k : Key} {p : Pattern} (h : PatternProp.IsShort k p)
    (hident : mode = .assign → p.isIdent = true) (hstays : staysShortIn out l mode k = true) :
    PatternProp.IsShort (key out l k) (pattern out l mode p) ∧
      (mode = .assign → (pattern out l mode p).isIdent = true) := by
  obtain ⟨id, span, rfl, hword, hp⟩ := h
  cases mode with
  | bind =>
      rcases hp with rfl | ⟨default, rfl⟩
      · exact ⟨⟨id, span, rfl, hword, .inl rfl⟩, nofun⟩
      · exact ⟨⟨id, span, rfl, hword, .inr ⟨_, rfl⟩⟩, nofun⟩
  | assign =>
      rcases hp with rfl | ⟨default, rfl⟩
      · have hplain : meaning out l id.name = .plain := by
          simpa [staysShortIn] using hstays
        have htarget : pattern out l .assign (.ident ⟨id.name, span⟩) = .ident ⟨id.name, span⟩ := by
          simp [pattern, target, hplain]
        rw [htarget]
        exact ⟨⟨id, span, rfl, hword, .inl rfl⟩, fun _ => rfl⟩
      · cases hident rfl

mutual

theorem expr_legible (l : Locals) : ∀ e : Expr, e.Legible settled → (expr out l e).Legible settled
  | .literal _ _, h => h
  | .template _ es _, h => ⟨by rw [length_exprs]; exact h.1, h.2.1, exprs_legible l es h.2.2⟩
  | .array es _, h => items_legible l true es h
  | .object ps _, h => properties_legible l ps h
  | .identifier _ s, h => name_legible out settled l h s
  | .member o k _ _, h => ⟨expr_legible l o h.1, access_legible l k h.2⟩
  | .call callee args _ _, h => ⟨expr_legible l callee h.1, items_legible l false args h.2⟩
  | .arrow ps body _ _, h => ⟨params_legible _ ps h.1, arrowBody_legible _ body h.2⟩
  | .function _, h => h
  | .this _, h => h
  | .await e _, h => expr_legible l e h
  | .unary _ e _, h => expr_legible l e h
  | .update _ _ p _, h => ⟨isSimple_pattern out l h.1, pattern_legible l .assign .target p h.2⟩
  | .binary _ left right _, h => ⟨expr_legible l left h.1, expr_legible l right h.2⟩
  | .logical _ left right _, h => ⟨expr_legible l left h.1, expr_legible l right h.2⟩
  | .conditional test yes no _, h => ⟨expr_legible l test h.1, expr_legible l yes h.2.1, expr_legible l no h.2.2⟩
  | .assign _ p e _, h =>
      ⟨h.1, h.2.1.imp_right (isSimple_pattern out l), pattern_legible l .assign .target p h.2.2.1, expr_legible l e h.2.2.2⟩
  | .sequence es _, h => ⟨by rw [length_exprs]; exact h.1, exprs_legible l es h.2⟩

theorem exprs_legible (l : Locals) : ∀ es : List Expr, LegibleExprs settled es → LegibleExprs settled (exprs out l es)
  | [], _ => trivial
  | e :: more, h => ⟨expr_legible l e h.1, exprs_legible l more h.2⟩

theorem items_legible (l : Locals) (holes : Bool) : ∀ es : List Item, LegibleItems settled holes es →
    LegibleItems settled holes (items out l es)
  | [], _ => trivial
  | .expr e :: more, h => ⟨expr_legible l e h.1, items_legible l holes more h.2⟩
  | .spread e :: more, h => ⟨expr_legible l e h.1, items_legible l holes more h.2⟩
  | .hole :: more, h => ⟨h.1, items_legible l holes more h.2⟩

theorem access_legible (l : Locals) : ∀ k : Key, k.LegibleAccess settled → (key out l k).LegibleAccess settled
  | .name _, h => h
  | .literal _, h => h
  | .computed e, h => expr_legible l e h

theorem key_legible (l : Locals) : ∀ k : Key, k.Legible settled → (key out l k).Legible settled
  | .name _, h => h
  | .literal _, h => h
  | .computed e, h => expr_legible l e h

theorem properties_legible (l : Locals) : ∀ ps : List Property, LegibleProperties settled ps →
    LegibleProperties settled (properties out l ps)
  | [], _ => trivial
  | .init k e shorthand _ :: more, h => by
      refine ⟨fun hshort => ?_, key_legible l k h.2.1, expr_legible l e h.2.2.1, properties_legible l more h.2.2.2⟩
      rw [Bool.and_eq_true] at hshort
      exact property_isShort out l (h.1 hshort.1) hshort.2
  | .spread e :: more, h => ⟨expr_legible l e h.1, properties_legible l more h.2⟩

theorem arrowBody_legible (l : Locals) : ∀ body : ArrowBody, body.Legible settled → (arrowBody out l body).Legible settled
  | .expr e, h => expr_legible l e h
  | .block b, h => block_legible l b h

theorem params_legible (l : Locals) : ∀ ps : List Pattern, LegiblePatterns settled .bind .param ps →
    LegiblePatterns settled .bind .param (params out l ps)
  | [], _ => trivial
  | p :: more, h => ⟨pattern_legible l .bind .param p h.1, params_legible _ more h.2⟩

theorem pattern_legible (l : Locals) (mode : Mode) (place : Place) : ∀ p : Pattern, p.Legible settled mode place →
    (pattern out l mode p).Legible settled mode place
  | .ident id, h => by
      cases mode with
      | bind => exact h
      | assign => exact target_legible out settled l h place
  | .array elements _, h => patterns_legible l mode .element elements h
  | .object props _, h => patternProps_legible l mode props h
  | .assign p default, h => ⟨h.1, pattern_legible l mode .target p h.2.1, expr_legible l default h.2.2⟩
  | .rest p, h => ⟨h.1, pattern_legible l mode .target p h.2⟩
  | .member e, h => ⟨h.1, isPlainMember_expr out l h.2.1, expr_legible l e h.2.2⟩
  | .hole, h => h

theorem patterns_legible (l : Locals) (mode : Mode) (place : Place) : ∀ ps : List Pattern,
    LegiblePatterns settled mode place ps → LegiblePatterns settled mode place (patterns out l mode ps)
  | [], _ => trivial
  | p :: more, h => ⟨pattern_legible l mode place p h.1, patterns_legible l mode place more h.2⟩

theorem patternProps_legible (l : Locals) (mode : Mode) : ∀ ps : List PatternProp, LegiblePatternProps settled mode ps →
    LegiblePatternProps settled mode (patternProps out l mode ps)
  | [], _ => trivial
  | .init k p shorthand :: more, h => by
      refine ⟨fun hshort => ?_, key_legible l k h.2.1, pattern_legible l mode .entry p h.2.2.1,
        patternProps_legible l mode more h.2.2.2⟩
      rw [Bool.and_eq_true] at hshort
      exact patternProp_isShort out l (h.1 hshort.1).1 (h.1 hshort.1).2 hshort.2
  | .rest p :: more, h => by
      refine ⟨fun hmode => ?_, pattern_legible l mode .target p h.2.1, patternProps_legible l mode more h.2.2⟩
      subst hmode
      exact isIdent_pattern out l (h.1 rfl)

theorem block_legible (l : Locals) : ∀ b : Block, b.Legible settled → (block out l b).Legible settled
  | .mk stmts _, h => statements_legible l.push stmts h

theorem statements_legible (l : Locals) : ∀ ss : List Stmt, LegibleStmts settled ss →
    LegibleStmts settled (statements out l ss)
  | [], _ => trivial
  | s :: more, h => ⟨statement_legible l s h.1, statements_legible _ more h.2⟩

theorem statement_legible (l : Locals) : ∀ s : Stmt, s.Legible settled → (statement out l s).Legible settled
  | .expr e _, h => expr_legible l e h
  | .declare d _, h => varDecl_legible l d h
  | .return e _, h => optional_legible l e h
  | .cond test yes none _, h =>
      ⟨fun hs => isBlock_statement out l (h.1 hs), expr_legible l test h.2.1, statement_legible l yes h.2.2⟩
  | .cond test yes (some no) _, h =>
      ⟨fun hs => ⟨isBlock_statement out l (h.1 hs).1, isBlock_statement out _ (h.1 hs).2⟩, expr_legible l test h.2.1,
        statement_legible l yes h.2.2.1, statement_legible _ no h.2.2.2⟩
  | .while test body _, h =>
      ⟨fun hs => isBlock_statement out l (h.1 hs), expr_legible l test h.2.1, statement_legible l body h.2.2⟩
  | .doWhile body test _, h =>
      ⟨fun hs => isBlock_statement out l (h.1 hs), statement_legible l body h.2.1, expr_legible _ test h.2.2⟩
  | .for init test update body _, h =>
      ⟨fun hs => isBlock_statement out _ (h.1 hs), forInit_legible l.push init h.2.1, optional_legible _ test h.2.2.1,
        optional_legible _ update h.2.2.2.1, statement_legible _ body h.2.2.2.2⟩
  | .block b, h => block_legible l b h
  | .break _, h => h
  | .continue _, h => h
  | .debugger _, h => h
  | .empty _, h => h
  | .function _, h => h

theorem optional_legible (l : Locals) : ∀ e : Option Expr, LegibleOption settled e → LegibleOption settled (optional out l e)
  | none, h => h
  | some e, h => expr_legible l e h

theorem forInit_legible (l : Locals) : ∀ init : ForInit, init.Legible settled → (forInit out l init).Legible settled
  | .absent, h => h
  | .declare d, h => varDecl_legible l d h
  | .expr e, h => expr_legible l e h

theorem varDecl_legible (l : Locals) : ∀ d : VarDecl, d.Legible settled → (varDecl out l d).Legible settled
  | .mk _ [] _, h => h
  | .mk _ (.mk p init s :: more) _, h => ⟨nofun, declarators_legible l (.mk p init s :: more) h.2⟩

theorem declarators_legible (l : Locals) : ∀ ds : List Declarator, LegibleDeclarators settled ds →
    LegibleDeclarators settled (declarators out l ds)
  | [], _ => trivial
  | .mk p init _ :: more, h =>
      ⟨pattern_legible l .bind .target p h.1, optional_legible l init h.2.1, declarators_legible _ more h.2.2⟩

end

end

end FieldScript.Spelled
