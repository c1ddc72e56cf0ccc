import FieldScript.Proofs.Render.Layout
import FieldScript.Proofs.Syntax.Nodes

/-!
# Legible trees

Not every tree can be written down: a name may be no word, a template may lack a part, a target may be no target.
A tree is *legible* if it has the shape that reading gives a tree. A settled tree has no `function` and no `this`
any more, and every branch and loop has a block for a body, so that an `else` cannot go astray. Settling changes what is
legible about statements, functions and `this` only, so a tree that has none of them is legible as a settled one if it was
before (`legible_of_inline`).
-/

namespace FieldScript

open Token (IsWord IsNumber IsQuoted IsPart wordKind)
open Render (Mode)

/-- A word that can be used as a name. -/
def IsName (name : String) : Prop := IsWord name.toList ∧ (wordKind name = .identifier name ∨ name = "async")

/-- A literal whose text is read as its value. -/
def Literal.Legible (lit : Literal) : Prop :=
  match lit.value with
  | .number x => IsNumber x lit.raw.toList
  | .string s => IsQuoted s lit.raw.toList
  | .bool true => lit.raw = "true"
  | .bool false => lit.raw = "false"
  | .null => lit.raw = "null"

/-- Literals that can be keys. -/
def Literal.isKey (lit : Literal) : Bool :=
  match lit.value with
  | .number _ | .string _ => true
  | _ => false

/-- Where a pattern stands. -/
inductive Place where
  /-- A target of its own. -/
  | target
  /-- An entry of an object pattern, which may have a default. -/
  | entry
  /-- A parameter, which may also take the rest. -/
  | param
  /-- An element of an array pattern, which may also be left out. -/
  | element
deriving DecidableEq, Repr

namespace Place

def allowsDefault : Place → Bool
  | .target => false
  | _ => true

def allowsRest : Place → Bool
  | .param | .element => true
  | _ => false

def allowsHole : Place → Bool
  | .element => true
  | _ => false

end Place

/-- An access that can be assigned to. -/
def Expr.isPlainMember : Expr → Bool
  | .member _ _ false _ => true
  | _ => false

/-- A target that can be read before it is written. -/
def Pattern.isSimple : Pattern → Bool
  | .ident _ | .member _ => true
  | _ => false

def Pattern.isIdent : Pattern → Bool
  | .ident _ => true
  | _ => false

def Stmt.isBlock : Stmt → Bool
  | .block _ => true
  | _ => false

/-- A short entry of an object repeats its key as its value. -/
def Property.IsShort (k : Key) (e : Expr) : Prop :=
  ∃ id span, k = .name id ∧ e = .identifier id.name span ∧ wordKind id.name = .identifier id.name

/-- A short entry of an object pattern repeats its key as its target. -/
def PatternProp.IsShort (k : Key) (p : Pattern) : Prop :=
  ∃ id span, k = .name id ∧ wordKind id.name = .identifier id.name ∧
    (p = .ident ⟨id.name, span⟩ ∨ ∃ default, p = .assign (.ident ⟨id.name, span⟩) default)

mutual

/-- An expression that can be written down. -/
def Expr.Legible (settled : Bool) : Expr → Prop
  | .literal lit _ => lit.Legible
  | .template parts es _ => parts.length = es.length + 1 ∧ (∀ part ∈ parts, IsPart part) ∧ LegibleExprs settled es
  | .array items _ => LegibleItems settled true items
  | .object props _ => LegibleProperties settled props
  | .identifier name _ => IsName name
  | .member o k _ _ => o.Legible settled ∧ k.LegibleAccess settled
  | .call callee args _ _ => callee.Legible settled ∧ LegibleItems settled false args
  | .arrow ps body _ _ => LegiblePatterns settled .bind .param ps ∧ body.Legible settled
  | .function _ => settled = false
  | .this _ => settled = false
  | .await e _ => e.Legible settled
  | .unary _ e _ => e.Legible settled
  | .update _ _ p _ => p.isSimple = true ∧ p.Legible settled .assign .target
  | .binary _ l r _ => l.Legible settled ∧ r.Legible settled
  | .logical _ l r _ => l.Legible settled ∧ r.Legible settled
  | .conditional test yes no _ => test.Legible settled ∧ yes.Legible settled ∧ no.Legible settled
  | .assign op p e _ =>
    op.punct?.isSome = true ∧ (op = .assign ∨ p.isSimple = true) ∧ p.Legible settled .assign .target ∧
      e.Legible settled
  | .sequence es _ => 2 ≤ es.length ∧ LegibleExprs settled es

def LegibleExprs (settled : Bool) : List Expr → Prop
  | [] => True
  | e :: more => e.Legible settled ∧ LegibleExprs settled more

/-- Elements or arguments, of which only elements may be left out. -/
def LegibleItems (settled holes : Bool) : List Item → Prop
  | [] => True
  | .expr e :: more => e.Legible settled ∧ LegibleItems settled holes more
  | .spread e :: more => e.Legible settled ∧ LegibleItems settled holes more
  | .hole :: more => holes = true ∧ LegibleItems settled holes more

/-- A key behind a point or in brackets. -/
def Key.LegibleAccess (settled : Bool) : Key → Prop
  | .name id => IsWord id.name.toList
  | .literal _ => False
  | .computed e => e.Legible settled

/-- A key in front of a colon. -/
def Key.Legible (settled : Bool) : Key → Prop
  | .name id => IsWord id.name.toList
  | .literal lit => lit.isKey = true ∧ lit.Legible
  | .computed e => e.Legible settled

def LegibleProperties (settled : Bool) : List Property → Prop
  | [] => True
  | .init k e shorthand _ :: more =>
    (shorthand = true → Property.IsShort k e) ∧ k.Legible settled ∧ e.Legible settled ∧ LegibleProperties settled more
  | .spread e :: more => e.Legible settled ∧ LegibleProperties settled more

def ArrowBody.Legible (settled : Bool) : ArrowBody → Prop
  | .expr e => e.Legible settled
  | .block b => b.Legible settled

/-- A pattern, given what its names are for and where it stands. -/
def Pattern.Legible (settled : Bool) (mode : Mode) (place : Place) : Pattern → Prop
  | .ident id => IsName id.name
  | .array elements _ => LegiblePatterns settled mode .element elements
  | .object props _ => LegiblePatternProps settled mode props
  | .assign p default => place.allowsDefault = true ∧ p.Legible settled mode .target ∧ default.Legible settled
  | .rest p => place.allowsRest = true ∧ p.Legible settled mode .target
  | .member e => mode = .assign ∧ e.isPlainMember = true ∧ e.Legible settled
  | .hole => place.allowsHole = true

def LegiblePatterns (settled : Bool) (mode : Mode) (place : Place) : List Pattern → Prop
  | [] => True
  | p :: more => p.Legible settled mode place ∧ LegiblePatterns settled mode place more

def LegiblePatternProps (settled : Bool) (mode : Mode) : List PatternProp → Prop
  | [] => True
  | .init k p shorthand :: more =>
    (shorthand = true → PatternProp.IsShort k p ∧ (mode = .assign → p.isIdent = true)) ∧ k.Legible settled ∧
      p.Legible settled mode .entry ∧ LegiblePatternProps settled mode more
  | .rest p :: more =>
    (mode = .bind → p.isIdent = true) ∧ p.Legible settled mode .target ∧ LegiblePatternProps settled mode more

def Stmt.Legible (settled : Bool) : Stmt → Prop
  | .expr e _ => e.Legible settled
  | .declare d _ => d.Legible settled
  | .return e _ => LegibleOption settled e
  | .cond test yes none _ =>
    (settled = true → yes.isBlock = true) ∧ test.Legible settled ∧ yes.Legible settled
  | .cond test yes (some no) _ =>
    (settled = true → yes.isBlock = true ∧ no.isBlock = true) ∧ test.Legible settled ∧ yes.Legible settled ∧
      no.Legible settled
  | .while test body _ => (settled = true → body.isBlock = true) ∧ test.Legible settled ∧ body.Legible settled
  | .doWhile body test _ => (settled = true → body.isBlock = true) ∧ body.Legible settled ∧ test.Legible settled
  | .for init test update body _ =>
    (settled = true → body.isBlock = true) ∧ init.Legible settled ∧ LegibleOption settled test ∧
      LegibleOption settled update ∧ body.Legible settled
  | .block b => b.Legible settled
  | .break _ => True
  | .continue _ => True
  | .debugger _ => True
  | .empty _ => True
  | .function _ => settled = false

def LegibleOption (settled : Bool) : Option Expr → Prop
  | none => True
  | some e => e.Legible settled

def Block.Legible (settled : Bool) : Block → Prop
  | .mk stmts _ => LegibleStmts settled stmts

def LegibleStmts (settled : Bool) : List Stmt → Prop
  | [] => True
  | s :: more => s.Legible settled ∧ LegibleStmts settled more

def VarDecl.Legible (settled : Bool) : VarDecl → Prop
  | .mk _ ds _ => ds ≠ [] ∧ LegibleDeclarators settled ds

def LegibleDeclarators (settled : Bool) : List Declarator → Prop
  | [] => True
  | .mk p init _ :: more =>
    p.Legible settled .bind .target ∧ LegibleOption settled init ∧ LegibleDeclarators settled more

def ForInit.Legible (settled : Bool) : ForInit → Prop
  | .absent => True
  | .declare d => d.Legible settled
  | .expr e => e.Legible settled

end

theorem legibleStmts_append {settled : Bool} {xs ys : List Stmt} :
    LegibleStmts settled (xs ++ ys) ↔ LegibleStmts settled xs ∧ LegibleStmts settled ys := by
  induction xs with
  | nil => simp [LegibleStmts]
  | cons s more ih => simp [LegibleStmts, ih, and_assoc]

theorem legibleDeclarators_append {settled : Bool} {xs ys : List Declarator} :
    LegibleDeclarators settled (xs ++ ys) ↔ LegibleDeclarators settled xs ∧ LegibleDeclarators settled ys := by
  induction xs with
  | nil => simp [LegibleDeclarators]
  | cons d more ih =>
      obtain ⟨p, init, span⟩ := d
      simp [LegibleDeclarators, ih, and_assoc]

/-! ## Trees without statements -/

/-- Nodes that may stand in a settled tree as they were read. -/
def Node.isInline : Node → Bool
  | .stmt _ | .expr (.function _) | .expr (.this _) => false
  | _ => true

/-- All nodes may stand in a settled tree as they were read. -/
def Inline (ns : List Node) : Prop := ∀ n ∈ ns, n.isInline = true

namespace Inline

variable {n : Node} {ns ns' : List Node}

theorem of_cons (h : Inline (n :: ns)) : Inline ns := (List.forall_mem_cons.1 h).2

theorem left (h : Inline (ns ++ ns')) : Inline ns := (List.forall_mem_append.1 h).1

theorem right (h : Inline (ns ++ ns')) : Inline ns' := (List.forall_mem_append.1 h).2

theorem not_stmt {s : Stmt} (h : Inline (.stmt s :: ns)) : False := by cases h _ List.mem_cons_self

end Inline

open Node

/-- Every statement is a node of its own. -/
theorem not_inline_stmt (s : Stmt) (h : Inline (ofStmt s)) : False := by
  match s with
  | .expr _ _ | .declare _ _ | .return _ _ | .cond _ _ none _ | .cond _ _ (some _) _ | .while _ _ _ | .doWhile _ _ _
  | .for _ _ _ _ _ | .block _ | .break _ | .continue _ | .debugger _ | .empty _ | .function _ => exact h.not_stmt

mutual

theorem legible_of_inline (e : Expr) (h : e.Legible false) (hn : Inline (ofExpr e)) : e.Legible true := by
  match e with
  | .literal _ _ => exact h
  | .template _ es _ => exact ⟨h.1, h.2.1, exprs_legible_of_inline es h.2.2 hn.of_cons⟩
  | .array es _ => exact items_legible_of_inline true es h hn.of_cons
  | .object ps _ => exact properties_legible_of_inline ps h hn.of_cons
  | .identifier _ _ => exact h
  | .member o k _ _ =>
      exact ⟨legible_of_inline o h.1 hn.of_cons.left, access_legible_of_inline k h.2 hn.of_cons.right⟩
  | .call callee args _ _ =>
      exact ⟨legible_of_inline callee h.1 hn.of_cons.left, items_legible_of_inline false args h.2 hn.of_cons.right⟩
  | .arrow ps body _ _ =>
      exact ⟨patterns_legible_of_inline .bind .param ps h.1 hn.of_cons.left,
        arrowBody_legible_of_inline body h.2 hn.of_cons.right⟩
  | .function _ => cases hn _ List.mem_cons_self
  | .this _ => cases hn _ List.mem_cons_self
  | .await e _ => exact legible_of_inline e h hn.of_cons
  | .unary _ e _ => exact legible_of_inline e h hn.of_cons
  | .update _ _ p _ => exact ⟨h.1, pattern_legible_of_inline .assign .target p h.2 hn.of_cons⟩
  | .binary _ l r _ => exact ⟨legible_of_inline l h.1 hn.of_cons.left, legible_of_inline r h.2 hn.of_cons.right⟩
  | .logical _ l r _ => exact ⟨legible_of_inline l h.1 hn.of_cons.left, legible_of_inline r h.2 hn.of_cons.right⟩
  | .conditional test yes no _ =>
      exact ⟨legible_of_inline test h.1 hn.of_cons.left, legible_of_inline yes h.2.1 hn.of_cons.right.left,
        legible_of_inline no h.2.2 hn.of_cons.right.right⟩
  | .assign _ p e _ =>
      exact ⟨h.1, h.2.1, pattern_legible_of_inline .assign .target p h.2.2.1 hn.of_cons.left,
        legible_of_inline e h.2.2.2 hn.of_cons.right⟩
  | .sequence es _ => exact ⟨h.1, exprs_legible_of_inline es h.2 hn.of_cons⟩

theorem exprs_legible_of_inline (es : List Expr) (h : LegibleExprs false es) (hn : Inline (ofExprs es)) :
    LegibleExprs true es := by
  match es with
  | [] => trivial
  | e :: more => exact ⟨legible_of_inline e h.1 hn.left, exprs_legible_of_inline more h.2 hn.right⟩

theorem items_legible_of_inline (holes : Bool) (es : List Item) (h : LegibleItems false holes es)
    (hn : Inline (ofItems es)) : LegibleItems true holes es := by
  match es with
  | [] => trivial
  | .expr e :: more => exact ⟨legible_of_inline e h.1 hn.left, items_legible_of_inline holes more h.2 hn.right⟩
  | .spread e :: more => exact ⟨legible_of_inline e h.1 hn.left, items_legible_of_inline holes more h.2 hn.right⟩
  | .hole :: more => exact ⟨h.1, items_legible_of_inline holes more h.2 hn⟩

theorem access_legible_of_inline (k : Key) (h : k.LegibleAccess false) (hn : Inline (ofKey k)) : k.LegibleAccess true := by
  match k with
  | .name _ => exact h
  | .literal _ => exact h
  | .computed e => exact legible_of_inline e h hn

theorem key_legible_of_inline (k : Key) (h : k.Legible false) (hn : Inline (ofKey k)) : k.Legible true := by
  match k with
  | .name _ => exact h
  | .literal _ => exact h
  | .computed e => exact legible_of_inline e h hn

theorem properties_legible_of_inline (ps : List Property) (h : LegibleProperties false ps) (hn : Inline (ofProperties ps)) :
    LegibleProperties true ps := by
  match ps with
  | [] => trivial
  | .init k e _ _ :: more =>
      exact ⟨h.1, key_legible_of_inline k h.2.1 hn.left, legible_of_inline e h.2.2.1 hn.right.left,
        properties_legible_of_inline more h.2.2.2 hn.right.right⟩
  | .spread e :: more => exact ⟨legible_of_inline e h.1 hn.left, properties_legible_of_inline more h.2 hn.right⟩

theorem arrowBody_legible_of_inline (body : ArrowBody) (h : body.Legible false) (hn : Inline (ofArrowBody body)) :
    body.Legible true := by
  match body with
  | .expr e => exact legible_of_inline e h hn
  | .block (.mk [] _) => trivial
  | .block (.mk (s :: _) _) => exact (not_inline_stmt s hn.left).elim

theorem pattern_legible_of_inline (mode : Mode) (place : Place) (p : Pattern) (h : p.Legible false mode place)
    (hn : Inline (ofPattern p)) : p.Legible true mode place := by
  match p with
  | .ident _ => exact h
  | .array elements _ => exact patterns_legible_of_inline mode .element elements h hn.of_cons
  | .object props _ => exact patternProps_legible_of_inline mode props h hn.of_cons
  | .assign p default =>
      exact ⟨h.1, pattern_legible_of_inline mode .target p h.2.1 hn.of_cons.left, legible_of_inline default h.2.2 hn.of_cons.right⟩
  | .rest p => exact ⟨h.1, pattern_legible_of_inline mode .target p h.2 hn.of_cons⟩
  | .member e => exact ⟨h.1, h.2.1, legible_of_inline e h.2.2 hn.of_cons⟩
  | .hole => exact h

theorem patterns_legible_of_inline (mode : Mode) (place : Place) (ps : List Pattern) (h : LegiblePatterns false mode place ps)
    (hn : Inline (ofPatterns ps)) : LegiblePatterns true mode place ps := by
  match ps with
  | [] => trivial
  | p :: more =>
      exact ⟨pattern_legible_of_inline mode place p h.1 hn.left, patterns_legible_of_inline mode place more h.2 hn.right⟩

theorem patternProps_legible_of_inline (mode : Mode) (ps : List PatternProp) (h : LegiblePatternProps false mode ps)
    (hn : Inline (ofPatternProps ps)) : LegiblePatternProps true mode ps := by
  match ps with
  | [] => trivial
  | .init k p _ :: more =>
      exact ⟨h.1, key_legible_of_inline k h.2.1 hn.left, pattern_legible_of_inline mode .entry p h.2.2.1 hn.right.left,
        patternProps_legible_of_inline mode more h.2.2.2 hn.right.right⟩
  | .rest p :: more =>
      exact ⟨h.1, pattern_legible_of_inline mode .target p h.2.1 hn.left, patternProps_legible_of_inline mode more h.2.2 hn.right⟩

end

end FieldScript
