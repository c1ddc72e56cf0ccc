import FieldScript.Settle.Basic
import Mathlib.Algebra.Order.Group.Multiset
import Mathlib.Data.Multiset.Bind
import Mathlib.Tactic.Abel

/-!
# Calls and the positions they stand in

Some positions of a tree may not be reached when the tree is evaluated, or are reached later or more
than once: the branches of a conditional, the right operand of a logical operator, defaults, the clauses
and bodies of loops, functions. Such a position is a *zone*. A call is known by the name it calls and by
the place it was read from, and it stands in a number of zones, one inside the other.

A tree *keeps* the calls of another one if it has a call for each of them, in the same zones and perhaps
in more, and apart from these no call of a name at all.
-/

namespace FieldScript

/-- A position that may not be reached, known by the place it was read from. -/
inductive Zone where
  /-- An arrow function with its parameters. -/
  | function (span : Span)
  /-- The body of a function, a branch or a loop. -/
  | body (span : Span)
  /-- An expression that is evaluated under a condition, or behind others that it may depend on. -/
  | guarded (span : Span)
deriving DecidableEq, Repr

/-- A call in a tree. -/
structure Site where
  /-- The name that is called, if the callee is a name. -/
  callee : Option String
  span : Span
  /-- The zones around the call, from the outside to the inside. -/
  zones : List Zone
deriving DecidableEq, Repr

namespace Site

/-- A call inside one more zone. -/
def inside (z : Zone) (c : Site) : Site := { c with zones := z :: c.zones }

/-- The same call, in the same zones and perhaps in more. -/
structure Within (c d : Site) : Prop where
  callee : d.callee = c.callee
  span : d.span = c.span
  zones : c.zones.Sublist d.zones

theorem Within.refl (c : Site) : Within c c := ⟨rfl, rfl, List.Sublist.refl _⟩

theorem Within.trans {c d e : Site} (h : Within c d) (h' : Within d e) : Within c e :=
  ⟨h'.callee.trans h.callee, h'.span.trans h.span, h.zones.trans h'.zones⟩

instance : IsTrans Site Within := ⟨fun _ _ _ h h' => h.trans h'⟩

theorem Within.inside {c d : Site} (h : Within c d) (z : Zone) : Within (c.inside z) (d.inside z) :=
  ⟨h.callee, h.span, h.zones.cons_cons z⟩

theorem Within.deeper {c d : Site} (h : Within c d) (z : Zone) : Within c (d.inside z) :=
  ⟨h.callee, h.span, h.zones.cons z⟩

end Site

/-- The name of an expression that is one. -/
def Expr.name? : Expr → Option String
  | .identifier name _ => some name
  | _ => none

/-- Calls in a tree. -/
abbrev Sites := Multiset Site

namespace Sites

/-- Calls inside one more zone. -/
def inside (z : Zone) (m : Sites) : Sites := m.map (Site.inside z)

mutual

/-- The calls in an expression. -/
def ofExpr : Expr → Sites
  | .literal _ _ => 0
  | .template _ es _ => ofExprs es
  | .array es _ => ofItems es
  | .object ps _ => ofProperties ps
  | .identifier _ _ => 0
  | .member o k _ _ => ofExpr o + ofKey k
  | .call callee args _ s => {⟨callee.name?, s, []⟩} + (ofExpr callee + ofItems args)
  | .arrow ps body _ s => inside (.function s) (ofPatterns ps + inside (.body s) (ofArrowBody body))
  | .function fn => ofFunction fn
  | .this _ => 0
  | .await e _ => ofExpr e
  | .unary _ e _ => ofExpr e
  | .update _ _ target _ => ofPattern target
  | .binary _ l r _ => ofExpr l + ofExpr r
  | .logical _ l r _ => ofExpr l + inside (.guarded r.span) (ofExpr r)
  | .conditional test yes no _ =>
    ofExpr test + (inside (.guarded yes.span) (ofExpr yes) + inside (.guarded no.span) (ofExpr no))
  | .assign _ target e _ => ofPattern target + ofExpr e
  | .sequence es _ => ofSequence es

/-- The calls in expressions. -/
def ofExprs : List Expr → Sites
  | [] => 0
  | e :: more => ofExpr e + ofExprs more

/-- The calls in the operands of a sequence, of which the later ones may depend on the first. -/
def ofSequence : List Expr → Sites
  | [] => 0
  | e :: more => ofExpr e + ofLater more

/-- The calls in later operands of a sequence. -/
def ofLater : List Expr → Sites
  | [] => 0
  | e :: more => inside (.guarded e.span) (ofExpr e) + ofLater more

/-- The calls in elements or arguments. -/
def ofItems : List Item → Sites
  | [] => 0
  | .expr e :: more => ofExpr e + ofItems more
  | .spread e :: more => ofExpr e + ofItems more
  | .hole :: more => ofItems more

/-- The calls in a key. -/
def ofKey : Key → Sites
  | .name _ => 0
  | .literal _ => 0
  | .computed e => ofExpr e

/-- The calls in the entries of an object. -/
def ofProperties : List Property → Sites
  | [] => 0
  | .init k e _ _ :: more => ofKey k + (ofExpr e + ofProperties more)
  | .spread e :: more => ofExpr e + ofProperties more

/-- The calls in the body of an arrow function. -/
def ofArrowBody : ArrowBody → Sites
  | .expr e => ofExpr e
  | .block b => ofBlock b

/-- The calls in a function with its keyword. -/
def ofFunction : FunctionDef → Sites
  | .mk _ ps body s => inside (.function s) (ofPatterns ps + inside (.body s) (ofBlock body))

/-- The calls in a pattern. -/
def ofPattern : Pattern → Sites
  | .ident _ => 0
  | .array elements _ => ofPatterns elements
  | .object props _ => ofPatternProps props
  | .assign target default => ofPattern target + inside (.guarded default.span) (ofExpr default)
  | .rest target => ofPattern target
  | .member e => ofExpr e
  | .hole => 0

/-- The calls in patterns. -/
def ofPatterns : List Pattern → Sites
  | [] => 0
  | p :: more => ofPattern p + ofPatterns more

/-- The calls in the entries of an object pattern. -/
def ofPatternProps : List PatternProp → Sites
  | [] => 0
  | .init k target _ :: more => ofKey k + (ofPattern target + ofPatternProps more)
  | .rest target :: more => ofPattern target + ofPatternProps more

/-- The calls in a statement. -/
def ofStmt : Stmt → Sites
  | .expr e _ => ofExpr e
  | .declare (.mk _ ds _) _ => ofDeclarators ds
  | .return e _ => ofOption e
  | .cond test yes no _ => ofExpr test + (inside (.body yes.span) (ofStmt yes) + (match no with
      | none => 0
      | some no => inside (.body no.span) (ofStmt no)))
  | .while test body _ => inside (.guarded test.span) (ofExpr test) + inside (.body body.span) (ofStmt body)
  | .doWhile body test _ => inside (.body body.span) (ofStmt body) + inside (.guarded test.span) (ofExpr test)
  | .for init test update body _ =>
    ofForInit init + (ofClause test + (ofClause update + inside (.body body.span) (ofStmt body)))
  | .block b => ofBlock b
  | .break _ => 0
  | .continue _ => 0
  | .debugger _ => 0
  | .empty _ => 0
  | .function fn => ofFunction fn

/-- The calls in an expression that may be left out. -/
def ofOption : Option Expr → Sites
  | none => 0
  | some e => ofExpr e

/-- The calls in a later clause or initial value in the header of a loop. -/
def ofClause : Option Expr → Sites
  | none => 0
  | some e => inside (.guarded e.span) (ofExpr e)

/-- The calls in statements between braces. -/
def ofBlock : Block → Sites
  | .mk stmts _ => ofStmts stmts

/-- The calls in statements. -/
def ofStmts : List Stmt → Sites
  | [] => 0
  | s :: more => ofStmt s + ofStmts more

/-- The calls in declarators. -/
def ofDeclarators : List Declarator → Sites
  | [] => 0
  | .mk target init _ :: more => ofPattern target + (ofOption init + ofDeclarators more)

/-- The calls in the first clause of a `for` statement. -/
def ofForInit : ForInit → Sites
  | .absent => 0
  | .declare (.mk _ ds _) => ofHeader ds
  | .expr e => ofExpr e

/-- The calls in the declarators of a `for` statement, of which the later ones may depend on the first. -/
def ofHeader : List Declarator → Sites
  | [] => 0
  | .mk target init _ :: more => ofPattern target + (ofOption init + ofLaterHeader more)

/-- The calls in later declarators of a `for` statement. -/
def ofLaterHeader : List Declarator → Sites
  | [] => 0
  | .mk target init _ :: more => ofPattern target + (ofClause init + ofLaterHeader more)

end

theorem ofStmts_append (xs ys : List Stmt) : ofStmts (xs ++ ys) = ofStmts xs + ofStmts ys := by
  induction xs with
  | nil => rw [List.nil_append, ofStmts, zero_add]
  | cons s more ih => rw [List.cons_append, ofStmts, ofStmts, ih, add_assoc]

theorem ofDeclarators_append (xs ys : List Declarator) :
    ofDeclarators (xs ++ ys) = ofDeclarators xs + ofDeclarators ys := by
  induction xs with
  | nil => rw [List.nil_append, ofDeclarators, zero_add]
  | cons d more ih =>
      obtain ⟨target, init, span⟩ := d
      rw [List.cons_append, ofDeclarators, ofDeclarators, ih]
      abel

theorem ofExpr_awaited (e : Expr) : ofExpr (Settle.awaited e) = ofExpr e := by
  rw [Settle.awaited, ofExpr]

theorem ofStmt_returning (e : Expr) : ofStmt (Settle.returning e) = ofExpr e := by
  rw [Settle.returning, ofStmt, ofOption]

@[simp] theorem inside_zero (z : Zone) : inside z 0 = 0 := rfl

theorem inside_add (z : Zone) (m n : Sites) : inside z (m + n) = inside z m + inside z n :=
  Multiset.map_add _ m n

end Sites

/-! ## Kept calls -/

/-- There is a call of the second kind for each call of the first, in the same zones and perhaps in more,
and no other call of a name. -/
def Kept (before after : Sites) : Prop :=
  ∃ kept new, after = kept + new ∧ Multiset.Rel Site.Within before kept ∧ ∀ c ∈ new, c.callee = none

namespace Kept

variable {xs xs' ys ys' : Sites}

theorem refl (xs : Sites) : Kept xs xs :=
  ⟨xs, 0, (add_zero xs).symm, Multiset.rel_refl_of_refl_on fun c _ => Site.Within.refl c, by simp⟩

theorem add (h : Kept xs ys) (h' : Kept xs' ys') : Kept (xs + xs') (ys + ys') := by
  obtain ⟨kept, new, rfl, hkept, hnew⟩ := h
  obtain ⟨kept', new', rfl, hkept', hnew'⟩ := h'
  refine ⟨kept + kept', new + new', by abel, hkept.add hkept', fun c hc => ?_⟩
  rcases Multiset.mem_add.1 hc with hc | hc
  · exact hnew c hc
  · exact hnew' c hc

theorem trans {zs : Sites} (h : Kept xs ys) (h' : Kept ys zs) : Kept xs zs := by
  obtain ⟨kept, new, rfl, hkept, hnew⟩ := h
  obtain ⟨kept', new', rfl, hkept', hnew'⟩ := h'
  obtain ⟨kept₀, new₀, hkept₀, hnew₀, rfl⟩ := Multiset.rel_add_left.1 hkept'
  refine ⟨kept₀, new₀ + new', add_assoc kept₀ new₀ new', Multiset.Rel.trans _ hkept hkept₀, fun c hc => ?_⟩
  rcases Multiset.mem_add.1 hc with hc | hc
  · obtain ⟨d, hd, hwithin⟩ := Multiset.exists_mem_of_rel_of_mem (Multiset.rel_flip.2 hnew₀) hc
    exact hwithin.callee.trans (hnew d hd)
  · exact hnew' c hc

/-- Calls of something else than a name may be added. -/
theorem grow (h : Kept xs ys) {new : Sites} (hnew : ∀ c ∈ new, c.callee = none) : Kept xs (ys + new) := by
  have hmore : Kept 0 new := ⟨0, new, (zero_add new).symm, Multiset.Rel.zero, hnew⟩
  simpa using h.add hmore

theorem inside (h : Kept xs ys) (z : Zone) : Kept (Sites.inside z xs) (Sites.inside z ys) := by
  obtain ⟨kept, new, rfl, hkept, hnew⟩ := h
  refine ⟨Sites.inside z kept, Sites.inside z new, Sites.inside_add z kept new, ?_, fun c hc => ?_⟩
  · refine Multiset.rel_map.2 (hkept.mono fun c _ d _ hcd => ?_)
    exact hcd.inside z
  · obtain ⟨d, hd, rfl⟩ := Multiset.mem_map.1 hc
    exact hnew d hd

/-- Calls may end up in one more zone. -/
theorem deeper (xs : Sites) (z : Zone) : Kept xs (Sites.inside z xs) := by
  refine ⟨Sites.inside z xs, 0, (add_zero _).symm, ?_, by simp⟩
  refine Multiset.rel_map_right.2 (Multiset.rel_refl_of_refl_on fun c _ => ?_)
  exact (Site.Within.refl c).deeper z

end Kept

end FieldScript
