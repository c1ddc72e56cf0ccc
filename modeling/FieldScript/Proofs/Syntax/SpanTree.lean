import FieldScript.Syntax.Basic

/-!
# The spans of a tree

What of a syntax tree refers to the text: the spans of its nodes, each above those of its children, and the words that a
name or a literal is written as. Spans are *laid* between two offsets if they are not empty, lie between them, contain
those of their children, and siblings stand one behind another (`LaidRow`). Only an entry of an object that is written
as one name has its key and its value at one place.
-/

namespace FieldScript

/-- A span that is not empty and lies between two offsets. -/
structure Span.Within (s : Span) (lo hi : Nat) : Prop where
  start : lo ≤ s.start
  nonempty : s.start < s.stop
  stop : s.stop ≤ hi

namespace Span.Within

variable {a b : Span} {lo lo' mid hi hi' : Nat}

theorem mono (h : a.Within lo hi) (hlo : lo' ≤ lo) (hhi : hi ≤ hi') : a.Within lo' hi' :=
  ⟨Nat.le_trans hlo h.start, h.nonempty, Nat.le_trans h.stop hhi⟩

theorem lt (h : a.Within lo hi) : lo < hi := by
  have hstart := h.start
  have hnonempty := h.nonempty
  have hstop := h.stop
  omega

theorem start_le (h : a.Within lo hi) : a.start ≤ hi := Nat.le_trans (Nat.le_of_lt h.nonempty) h.stop

theorem merge (ha : a.Within lo hi) (hb : b.Within lo hi) : (a.merge b).Within lo hi := by
  refine ⟨Nat.le_min.2 ⟨ha.start, hb.start⟩, ?_, Nat.max_le.2 ⟨ha.stop, hb.stop⟩⟩
  exact Nat.lt_of_le_of_lt (Nat.min_le_left _ _) (Nat.lt_of_lt_of_le ha.nonempty (Nat.le_max_left _ _))

/-- Two spans one behind the other. -/
theorem merge_eq (ha : a.Within lo mid) (hb : b.Within mid hi) : a.merge b = ⟨a.start, b.stop⟩ := by
  have hstart := ha.start
  have hstop := ha.stop
  have hnonempty := ha.nonempty
  have hstart' := hb.start
  have hnonempty' := hb.nonempty
  show (⟨min a.start b.start, max a.stop b.stop⟩ : Span) = _
  rw [Nat.min_eq_left (by omega), Nat.max_eq_right (by omega)]

/-- A span up to an offset behind it. -/
theorem merge_point_eq (ha : a.Within lo hi) (hle : hi ≤ hi') : a.merge (.point hi') = ⟨a.start, hi'⟩ := by
  have hstop := ha.stop
  have hnonempty := ha.nonempty
  show (⟨min a.start hi', max a.stop hi'⟩ : Span) = _
  rw [Nat.min_eq_left (by omega), Nat.max_eq_right (by omega)]

end Span.Within

/-- The spans of a part of a tree. -/
inductive SpanTree where
  /-- A word with what it has to be. -/
  | word (id : Ident)
  /-- A span with its children in the order of the text. -/
  | node (span : Span) (children : List SpanTree)
  /-- The key and the value of an entry that is written as one name. -/
  | shared (key value : List SpanTree)

/-! ## Spans that are laid -/

section Laid

variable (I : Ident → Prop)

mutual

/-- The spans of a part lie between two offsets in order, and its words are as told. -/
def SpanTree.Laid (lo hi : Nat) : SpanTree → Prop
  | .word id => id.span.Within lo hi ∧ I id
  | .node span children => span.Within lo hi ∧ LaidRow span.start span.stop children
  | .shared key value => LaidRow lo hi key ∧ LaidRow lo hi value

/-- Parts that are laid one behind another: each up to some offset, and the next ones from there on. -/
def LaidRow (lo hi : Nat) : List SpanTree → Prop
  | [] => lo ≤ hi
  | tree :: more => ∃ mid, tree.Laid lo mid ∧ LaidRow mid hi more

end

end Laid

variable {I : Ident → Prop} {lo lo' mid hi hi' : Nat} {tree : SpanTree} {xs ys : List SpanTree} {s s' : Span}

mutual

theorem SpanTree.Laid.mono {tree : SpanTree} {lo lo' hi hi' : Nat} (h : tree.Laid I lo hi) (hlo : lo' ≤ lo)
    (hhi : hi ≤ hi') : tree.Laid I lo' hi' := by
  match tree with
  | .word id => exact ⟨h.1.mono hlo hhi, h.2⟩
  | .node span children => exact ⟨h.1.mono hlo hhi, h.2⟩
  | .shared key value => exact ⟨LaidRow.mono h.1 hlo hhi, LaidRow.mono h.2 hlo hhi⟩

theorem LaidRow.mono {xs : List SpanTree} {lo lo' hi hi' : Nat} (h : LaidRow I lo hi xs) (hlo : lo' ≤ lo)
    (hhi : hi ≤ hi') : LaidRow I lo' hi' xs := by
  match xs with
  | [] => exact Nat.le_trans hlo (Nat.le_trans h hhi)
  | tree :: more =>
      obtain ⟨mid, htree, hmore⟩ := h
      exact ⟨mid, htree.mono hlo (Nat.le_refl _), hmore.mono (Nat.le_refl _) hhi⟩

end

mutual

theorem SpanTree.Laid.le {tree : SpanTree} {lo hi : Nat} (h : tree.Laid I lo hi) : lo ≤ hi := by
  match tree with
  | .word id => exact Nat.le_of_lt h.1.lt
  | .node span children => exact Nat.le_of_lt h.1.lt
  | .shared key value => exact LaidRow.le h.1

theorem LaidRow.le {xs : List SpanTree} {lo hi : Nat} (h : LaidRow I lo hi xs) : lo ≤ hi := by
  match xs with
  | [] => exact h
  | tree :: more =>
      obtain ⟨mid, htree, hmore⟩ := h
      exact Nat.le_trans htree.le hmore.le

end

namespace LaidRow

theorem nil (h : lo ≤ hi) : LaidRow I lo hi [] := h

theorem append (h : LaidRow I lo mid xs) (h' : LaidRow I mid hi ys) : LaidRow I lo hi (xs ++ ys) := by
  induction xs generalizing lo with
  | nil => exact h'.mono h (Nat.le_refl _)
  | cons tree more ih =>
      obtain ⟨cut, htree, hmore⟩ := h
      exact ⟨cut, htree, ih hmore⟩

theorem of_append (h : LaidRow I lo hi (xs ++ ys)) : ∃ mid, LaidRow I lo mid xs ∧ LaidRow I mid hi ys := by
  induction xs generalizing lo with
  | nil => exact ⟨lo, Nat.le_refl _, h⟩
  | cons tree more ih =>
      obtain ⟨cut, htree, hmore⟩ := h
      obtain ⟨mid, hmore, hys⟩ := ih hmore
      exact ⟨mid, ⟨cut, htree, hmore⟩, hys⟩

theorem of_singleton (h : LaidRow I lo hi [tree]) : tree.Laid I lo hi := by
  obtain ⟨mid, htree, hle⟩ := h
  exact htree.mono (Nat.le_refl _) hle

theorem word {id : Ident} (h : id.span.Within lo hi) (hid : I id) : LaidRow I lo hi [.word id] :=
  ⟨hi, ⟨h, hid⟩, Nat.le_refl _⟩

theorem node (h : s.Within lo hi) (hrow : LaidRow I s.start s.stop xs) : LaidRow I lo hi [.node s xs] :=
  ⟨hi, ⟨h, hrow⟩, Nat.le_refl _⟩

theorem shared (h : LaidRow I lo hi xs) (h' : LaidRow I lo hi ys) : LaidRow I lo hi [.shared xs ys] :=
  ⟨hi, ⟨h, h'⟩, Nat.le_refl _⟩

/-- A node around a row. -/
theorem around {a b : Nat} (h : s.Within lo hi) (hrow : LaidRow I a b xs) (ha : s.start ≤ a) (hb : b ≤ s.stop) :
    LaidRow I lo hi [.node s xs] :=
  node h (hrow.mono ha hb)

/-- A row between two spans. -/
theorem enclose {a b : Nat} (h : s.Within lo a) (hrow : LaidRow I a b xs) (h' : s'.Within b hi) :
    LaidRow I lo hi [.node (s.merge s') xs] := by
  have hwithin := h.mono (Nat.le_refl _) hrow.le
  have hstop := h.stop
  have hnonempty := h.nonempty
  have hstart' := h'.start
  have hnonempty' := h'.nonempty
  rw [hwithin.merge_eq h']
  exact around ⟨h.start, show s.start < s'.stop by have := hrow.le; omega, h'.stop⟩ hrow (by show s.start ≤ a; omega)
    (by show b ≤ s'.stop; omega)

/-- A span up to an offset behind it, with a row that starts in it. -/
theorem upTo {a : Nat} (h : s.Within lo a) (hle : a ≤ hi) (hrow : LaidRow I s.start hi xs) :
    LaidRow I lo hi [.node (s.merge (.point hi)) xs] := by
  rw [h.merge_point_eq hle]
  have hstop := h.stop
  have hnonempty := h.nonempty
  exact node ⟨h.start, show s.start < hi by omega, Nat.le_refl _⟩ hrow

end LaidRow

/-- Spans that are laid within one of them, which lies between two offsets. -/
structure Placed (I : Ident → Prop) (s : Span) (xs : List SpanTree) (lo hi : Nat) : Prop where
  within : s.Within lo hi
  row : LaidRow I s.start s.stop xs

namespace Placed

theorem of_word (id : Ident) (h : LaidRow I lo hi [.word id]) : Placed I id.span [.word id] lo hi := by
  obtain ⟨hwithin, hid⟩ := h.of_singleton
  exact ⟨hwithin, .word ⟨Nat.le_refl _, hwithin.nonempty, Nat.le_refl _⟩ hid⟩

theorem of_node (h : LaidRow I lo hi [.node s xs]) : Placed I s [.node s xs] lo hi := by
  obtain ⟨hwithin, hrow⟩ := h.of_singleton
  exact ⟨hwithin, .node ⟨Nat.le_refl _, hwithin.nonempty, Nat.le_refl _⟩ hrow⟩

/-- A node from a span on, with a row that starts in it, up to what is placed behind the row. -/
theorem join {a b : Nat} (h : s.Within lo a) (hrow : LaidRow I s.start a xs) (hle : a ≤ b) (h' : Placed I s' ys b hi) :
    LaidRow I lo hi [.node (s.merge s') (xs ++ ys)] := by
  have hwithin := h'.within.mono hle (Nat.le_refl _)
  have hnonempty := h.nonempty
  have hstop := h.stop
  have hstart' := hwithin.start
  have hnonempty' := hwithin.nonempty
  rw [h.merge_eq hwithin]
  refine .node ⟨h.start, show s.start < s'.stop by omega, hwithin.stop⟩ (hrow.append ?_)
  exact h'.row.mono hstart' (Nat.le_refl _)

/-- Two parts one behind the other. -/
theorem join_placed {a b : Nat} (h : Placed I s xs lo a) (hle : a ≤ b) (h' : Placed I s' ys b hi) :
    LaidRow I lo hi [.node (s.merge s') (xs ++ ys)] :=
  join h.within (h.row.mono (Nat.le_refl _) h.within.stop) hle h'

/-- A part behind a span. -/
theorem behind {a : Nat} (h : s.Within lo a) (h' : Placed I s' ys a hi) : LaidRow I lo hi [.node (s.merge s') ys] :=
  join h (.nil h.start_le) (Nat.le_refl _) h'

/-- A part in front of a span. -/
theorem before {a : Nat} (h : Placed I s xs lo a) (h' : s'.Within a hi) : LaidRow I lo hi [.node (s.merge s') xs] := by
  have hnonempty := h.within.nonempty
  have hstop := h.within.stop
  have hstart' := h'.start
  have hnonempty' := h'.nonempty
  rw [h.within.merge_eq h']
  exact .around ⟨h.within.start, show s.start < s'.stop by omega, h'.stop⟩ h.row (Nat.le_refl _)
    (show s.stop ≤ s'.stop by omega)

/-- A part with a row behind it, up to where the row ends. -/
theorem extend {a : Nat} (h : Placed I s xs lo a) (hrow : LaidRow I a hi ys) :
    LaidRow I lo hi [.node (s.merge (.point hi)) (xs ++ ys)] :=
  .upTo h.within hrow.le ((h.row.mono (Nat.le_refl _) h.within.stop).append hrow)

end Placed

mutual

/-- The span of a part and all those below it. -/
def SpanTree.all : SpanTree → List Span
  | .word id => [id.span]
  | .node span children => span :: SpanTree.allOf children
  | .shared key value => SpanTree.allOf key ++ SpanTree.allOf value

/-- The spans of parts and all those below them. -/
def SpanTree.allOf : List SpanTree → List Span
  | [] => []
  | tree :: more => tree.all ++ SpanTree.allOf more

end

mutual

/-- However deep a span stands, it lies between the offsets that the whole lies between. -/
theorem SpanTree.Laid.within {tree : SpanTree} {lo hi : Nat} (h : tree.Laid I lo hi) : ∀ s ∈ tree.all, s.Within lo hi := by
  match tree with
  | .word id => exact List.forall_mem_singleton.2 h.1
  | .node span children =>
      exact List.forall_mem_cons.2 ⟨h.1, (LaidRow.mono h.2 h.1.start h.1.stop).within⟩
  | .shared key value => exact List.forall_mem_append.2 ⟨LaidRow.within h.1, LaidRow.within h.2⟩

theorem LaidRow.within {xs : List SpanTree} {lo hi : Nat} (h : LaidRow I lo hi xs) :
    ∀ s ∈ SpanTree.allOf xs, s.Within lo hi := by
  match xs with
  | [] => exact nofun
  | tree :: more =>
      obtain ⟨mid, htree, hmore⟩ := h
      exact List.forall_mem_append.2 ⟨(htree.mono (Nat.le_refl _) hmore.le).within,
        (hmore.mono htree.le (Nat.le_refl _)).within⟩

end

/-! ## The spans of trees -/

mutual

/-- The spans of an expression. -/
def Expr.spans : Expr → List SpanTree
  | .literal lit s => [.word ⟨lit.raw, s⟩]
  | .template _ es s => [.node s (spansOfExprs es)]
  | .array items s => [.node s (spansOfItems items)]
  | .object props s => [.node s (spansOfProperties props)]
  | .identifier name s => [.word ⟨name, s⟩]
  | .member o k _ s => [.node s (o.spans ++ k.spans)]
  | .call callee args _ s => [.node s (callee.spans ++ spansOfItems args)]
  | .arrow ps body _ s => [.node s (spansOfPatterns ps ++ body.spans)]
  | .function fn => fn.spans
  | .this s => [.node s []]
  | .await e s | .unary _ e s => [.node s e.spans]
  | .update _ _ target s => [.node s target.spans]
  | .binary _ l r s | .logical _ l r s => [.node s (l.spans ++ r.spans)]
  | .conditional test yes no s => [.node s (test.spans ++ (yes.spans ++ no.spans))]
  | .assign _ target e s => [.node s (target.spans ++ e.spans)]
  | .sequence es s => [.node s (spansOfExprs es)]

/-- The spans of expressions. -/
def spansOfExprs : List Expr → List SpanTree
  | [] => []
  | e :: more => e.spans ++ spansOfExprs more

/-- The spans of elements or arguments. One that is left out has none. -/
def spansOfItems : List Item → List SpanTree
  | [] => []
  | .expr e :: more => e.spans ++ spansOfItems more
  | .spread e :: more => e.spans ++ spansOfItems more
  | .hole :: more => spansOfItems more

/-- The spans of a key. The place of a literal is not kept. -/
def Key.spans : Key → List SpanTree
  | .name id => [.word id]
  | .literal _ => []
  | .computed e => e.spans

/-- The spans of the entries of an object. -/
def spansOfProperties : List Property → List SpanTree
  | [] => []
  | .init k e true s :: more => .node s [.shared k.spans e.spans] :: spansOfProperties more
  | .init k e false s :: more => .node s (k.spans ++ e.spans) :: spansOfProperties more
  | .spread e :: more => e.spans ++ spansOfProperties more

/-- The spans of the body of an arrow function. -/
def ArrowBody.spans : ArrowBody → List SpanTree
  | .expr e => e.spans
  | .block b => b.spans

/-- The spans of a function with its keyword. -/
def FunctionDef.spans : FunctionDef → List SpanTree
  | .mk none ps body s => [.node s (spansOfPatterns ps ++ body.spans)]
  | .mk (some name) ps body s => [.node s (.word name :: (spansOfPatterns ps ++ body.spans))]

/-- The spans of a pattern. Only elements can be left out; a hole anywhere else is laid nowhere. -/
def Pattern.spans : Pattern → List SpanTree
  | .ident id => [.word id]
  | .array elements s => [.node s (spansOfPatterns elements)]
  | .object props s => [.node s (spansOfPatternProps props)]
  | .assign target default => [.node (target.span.merge default.span) (target.spans ++ default.spans)]
  | .rest target => [.node target.span target.spans]
  | .member e => [.node e.span e.spans]
  | .hole => [.node (.point 0) []]

/-- The spans of elements or parameters. One that is left out has none. -/
def spansOfPatterns : List Pattern → List SpanTree
  | [] => []
  | .hole :: more => spansOfPatterns more
  | p :: more => p.spans ++ spansOfPatterns more

/-- The spans of the entries of an object pattern. -/
def spansOfPatternProps : List PatternProp → List SpanTree
  | [] => []
  | .init k target true :: more => .shared k.spans target.spans :: spansOfPatternProps more
  | .init k target false :: more => k.spans ++ (target.spans ++ spansOfPatternProps more)
  | .rest target :: more => target.spans ++ spansOfPatternProps more

/-- The spans of a statement. -/
def Stmt.spans : Stmt → List SpanTree
  | .expr e s => [.node s e.spans]
  | .declare d s => [.node s d.spans]
  | .return e s => [.node s (spansOfOption e)]
  | .cond test yes none s => [.node s (test.spans ++ yes.spans)]
  | .cond test yes (some no) s => [.node s (test.spans ++ (yes.spans ++ no.spans))]
  | .while test body s => [.node s (test.spans ++ body.spans)]
  | .doWhile body test s => [.node s (body.spans ++ test.spans)]
  | .for init test update body s =>
    [.node s (init.spans ++ (spansOfOption test ++ (spansOfOption update ++ body.spans)))]
  | .block b => b.spans
  | .break s | .continue s | .debugger s | .empty s => [.node s []]
  | .function fn => fn.spans

/-- The spans of an expression that may be left out. -/
def spansOfOption : Option Expr → List SpanTree
  | none => []
  | some e => e.spans

/-- The spans of statements between braces. -/
def Block.spans : Block → List SpanTree
  | .mk stmts s => [.node s (spansOfStmts stmts)]

/-- The spans of statements. -/
def spansOfStmts : List Stmt → List SpanTree
  | [] => []
  | s :: more => s.spans ++ spansOfStmts more

/-- The spans of a declaration. -/
def VarDecl.spans : VarDecl → List SpanTree
  | .mk _ ds s => [.node s (spansOfDeclarators ds)]

/-- The spans of declarators. -/
def spansOfDeclarators : List Declarator → List SpanTree
  | [] => []
  | .mk target init s :: more => .node s (target.spans ++ spansOfOption init) :: spansOfDeclarators more

/-- The spans of the first clause of a `for` statement. -/
def ForInit.spans : ForInit → List SpanTree
  | .absent => []
  | .declare d => d.spans
  | .expr e => e.spans

end

/-! ## Spans of trees and lists -/

section

variable {I : Ident → Prop} {lo hi : Nat}

theorem FunctionDef.placed {fn : FunctionDef} (h : LaidRow I lo hi fn.spans) : Placed I fn.span fn.spans lo hi := by
  obtain ⟨name, ps, body, s⟩ := fn
  cases name <;> exact .of_node h

theorem Block.placed {b : Block} (h : LaidRow I lo hi b.spans) : Placed I b.span b.spans lo hi := by
  obtain ⟨stmts, s⟩ := b
  exact .of_node h

/-- The spans of an expression are laid within its own. -/
theorem Expr.placed {e : Expr} (h : LaidRow I lo hi e.spans) : Placed I e.span e.spans lo hi := by
  cases e with
  | literal lit s => exact .of_word ⟨lit.raw, s⟩ h
  | identifier name s => exact .of_word ⟨name, s⟩ h
  | function fn =>
      obtain ⟨name, ps, body, s⟩ := fn
      exact FunctionDef.placed h
  | _ => exact .of_node h

/-- The spans of a pattern are laid within its own. -/
theorem Pattern.placed {p : Pattern} (h : LaidRow I lo hi p.spans) : Placed I p.span p.spans lo hi := by
  cases p with
  | ident id => exact .of_word _ h
  | _ => exact .of_node h

end

theorem spansOfExprs_eq (es : List Expr) : spansOfExprs es = es.flatMap Expr.spans := by
  induction es with
  | nil => rfl
  | cons e es ih => rw [spansOfExprs, ih, List.flatMap_cons]

theorem spansOfItems_eq (is : List Item) : spansOfItems is = is.flatMap fun i => spansOfItems [i] := by
  induction is with
  | nil => rfl
  | cons i is ih => cases i <;> simp [spansOfItems, ih]

theorem spansOfProperties_eq (ps : List Property) :
    spansOfProperties ps = ps.flatMap fun p => spansOfProperties [p] := by
  induction ps with
  | nil => rfl
  | cons p ps ih =>
      cases p with
      | init k e shorthand s => cases shorthand <;> simp [spansOfProperties, ih]
      | spread e => simp [spansOfProperties, ih]

theorem spansOfPatterns_eq (ps : List Pattern) : spansOfPatterns ps = ps.flatMap fun p => spansOfPatterns [p] := by
  induction ps with
  | nil => rfl
  | cons p ps ih => cases p <;> simp [spansOfPatterns, ih]

theorem spansOfPatternProps_eq (ps : List PatternProp) :
    spansOfPatternProps ps = ps.flatMap fun p => spansOfPatternProps [p] := by
  induction ps with
  | nil => rfl
  | cons p ps ih =>
      cases p with
      | init k target shorthand => cases shorthand <;> simp [spansOfPatternProps, ih]
      | rest target => simp [spansOfPatternProps, ih]

theorem spansOfPatterns_laid {I : Ident → Prop} {lo hi : Nat} {p : Pattern} (h : LaidRow I lo hi p.spans) :
    LaidRow I lo hi (spansOfPatterns [p]) := by
  cases p with
  | hole => exact h.le
  | _ => simpa [spansOfPatterns] using h

end FieldScript
