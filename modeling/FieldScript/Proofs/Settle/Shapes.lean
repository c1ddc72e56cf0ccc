import FieldScript.Capability
import FieldScript.Proofs.Eval.Parts

/-!
# Which calls settling reorders

Settling moves a call in front of the statement if the call is pending and the object of a member access.
So such a call overtakes whatever the body does before it in the same statement. This does no harm if all
that it overtakes are reads, and new cells. The *shape* of a tree tells whether that is so:

* whether calls of the tree move in front,
* what is left of it does besides reading,
* whether its calls happen in the order in which they are written (`ordered`).

A call must also not move in front of a statement that may not make it, or may make it more than once. An
operand that is evaluated only sometimes is put into a function of its own where settling knows of it
(`kept`), and must have no such calls where it does not (`fixed`).
-/

namespace FieldScript

/-- What settling makes of a tree, as far as the order of calls is concerned. -/
structure Shape where
  /-- Calls move in front of the statement. -/
  hoists : Bool
  /-- What is left does this. -/
  deeds : Deeds
  /-- The calls are made in the order in which they are written. -/
  ordered : Bool

namespace Shape

/-- Reads, or makes new cells. -/
def still : Shape := ⟨false, Deeds.none, true⟩

/-- Changes a variable or a cell. -/
def change : Shape := ⟨false, ⟨true, false⟩, true⟩

/-- Makes a call, which `counts` or does not matter. -/
def call (counts : Bool) : Shape := ⟨false, ⟨false, counts⟩, true⟩

/-- One tree behind another. What moves in front of the later one overtakes the earlier one. -/
def andThen (a b : Shape) : Shape :=
  ⟨a.hoists || b.hoists, a.deeds.both b.deeds,
    a.ordered && b.ordered && (!b.hoists || !a.deeds.writes && !a.deeds.calls)⟩

/-- The object of a member access. If it is pending it moves in front as a whole, with all that it does. -/
def object (pending : Bool) (a : Shape) : Shape :=
  if pending then ⟨true, Deeds.none, a.ordered && !a.deeds.writes⟩ else a

/-- A tree that gets a function of its own if it needs one. -/
def kept (counts : Bool) (a : Shape) : Shape :=
  ⟨false, ⟨a.deeds.writes, a.deeds.calls || counts && a.hoists⟩, a.ordered⟩

/-- A tree of which nothing may move in front, on a condition. -/
def fixedIf (condition : Bool) (a : Shape) : Shape :=
  { a with ordered := a.ordered && !(condition && a.hoists) }

/-- A tree of which nothing may move in front. -/
def fixed (a : Shape) : Shape := a.fixedIf true

/-- The value and the target of an assignment. The value comes first, but settling visits the target
before it. -/
def assign (value target : Shape) : Shape :=
  { value.andThen target with ordered := (value.andThen target).ordered && !(value.hoists && target.hoists) }

end Shape

namespace Expr

/-- Whether the value of an expression is pending: it is a call of an asynchronous capability. -/
def isPending (capabilities : Capabilities) : Expr → Bool
  | .call (.identifier name _) _ _ _ => capabilities.isAsync name
  | _ => false

/-- Whether an expression is a chain that may break off. A call of a capability does not, because a capability
is always there. -/
def isOptionalChain : Expr → Bool
  | .member o _ optional _ => optional || o.isOptionalChain
  | _ => false

end Expr

/-- Whether a pattern is a single variable or member. -/
def Pattern.isSingle : Pattern → Bool
  | .ident _ | .member _ => true
  | _ => false

section

variable (capabilities : Capabilities) (counts : Bool)

mutual

/-- The shape of an expression without arrow functions. -/
def Expr.shape : Expr → Shape
  | .literal _ _ | .identifier _ _ | .arrow _ _ _ _ | .function _ | .this _ => .still
  | .template _ es _ => shapeOfExprs es
  | .array items _ => shapeOfItems items
  | .object props _ => shapeOfProperties props
  | .member o k optional _ =>
    -- behind an optional link the key may not be reached
    (o.shape.object (o.isPending capabilities)).andThen
      (k.shape.fixedIf (optional || o.isOptionalChain))
  | .call _ args _ _ => (shapeOfItems args).andThen (.call counts)
  | .await e _ => e.shape
  | .unary .delete (.member o k _ _) _ =>
    (o.shape.object (o.isPending capabilities)).andThen (k.shape.andThen .change)
  | .unary .delete e _ => e.shape.fixed
  | .unary _ e _ => e.shape
  | .update _ _ target _ => target.currentShape.fixed.andThen target.shape.fixed
  | .binary _ l r _ => l.shape.andThen r.shape
  | .logical _ l r _ => l.shape.andThen (r.shape.kept counts)
  | .conditional test yes no _ =>
    test.shape.andThen ((yes.shape.kept counts).andThen (no.shape.kept counts))
  | .assign .assign target e _ => e.shape.assign target.shape
  -- the target is read before and bound behind the value
  | .assign (.binary _) target e _ =>
    target.currentShape.fixed.andThen (e.shape.andThen target.shape.fixed)
  | .assign (.logical _) target e _ =>
    target.currentShape.fixed.andThen (e.shape.fixed.andThen target.shape.fixed)
  | .sequence [] _ => .still
  | .sequence (e :: more) _ => e.shape.andThen (shapeOfOthers more)

/-- The shape of expressions one after another. -/
def shapeOfExprs : List Expr → Shape
  | [] => .still
  | e :: more => e.shape.andThen (shapeOfExprs more)

/-- The shape of the later operands of a sequence. -/
def shapeOfOthers : List Expr → Shape
  | [] => .still
  | e :: more => (e.shape.kept counts).andThen (shapeOfOthers more)

/-- The shape of elements or arguments. -/
def shapeOfItems : List Item → Shape
  | [] => .still
  | .expr e :: more => e.shape.andThen (shapeOfItems more)
  | .spread e :: more => e.shape.andThen (shapeOfItems more)
  | .hole :: more => shapeOfItems more

/-- The shape of a key. -/
def Key.shape : Key → Shape
  | .name _ | .literal _ => .still
  | .computed e => e.shape

/-- The shape of the entries of an object. -/
def shapeOfProperties : List Property → Shape
  | [] => .still
  | .init k e _ _ :: more => k.shape.andThen (e.shape.andThen (shapeOfProperties more))
  | .spread e :: more => e.shape.andThen (shapeOfProperties more)

/-- The shape of reading the target of an assignment. -/
def Pattern.currentShape : Pattern → Shape
  | .member e => e.shape
  | _ => .still

/-- The shape of an assignment to a target. -/
def Pattern.shape : Pattern → Shape
  | .ident _ => .change
  | .array elements _ => shapeOfPatterns elements
  | .object props _ => shapeOfPatternProps props
  | .assign target default => (default.shape.kept counts).andThen target.shape
  | .rest target => target.shape
  | .member (.member o k _ _) =>
    (o.shape.object (o.isPending capabilities)).andThen (k.shape.andThen .change)
  | .member _ | .hole => .still

/-- The shape of assignments to targets one after another. -/
def shapeOfPatterns : List Pattern → Shape
  | [] => .still
  | p :: more => p.shape.andThen (shapeOfPatterns more)

/-- The shape of assignments to the entries of an object pattern. -/
def shapeOfPatternProps : List PatternProp → Shape
  | [] => .still
  | .init k target _ :: more => k.shape.andThen (target.shape.andThen (shapeOfPatternProps more))
  | .rest target :: more => target.shape.andThen (shapeOfPatternProps more)

end

end

end FieldScript
