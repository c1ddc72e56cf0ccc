import FieldScript.Composite.Extract

/-!
# The layout of a composite source

Which parts of a source are schema and which are bodies.
-/

namespace FieldScript

/-- What a part of a source is. -/
inductive PartKind where
  | declarative
  | expression
deriving DecidableEq, Repr

def PartKind.name : PartKind → String
  | .declarative => "Declarative"
  | .expression => "Expression"

/-- A part of a source. -/
structure LayoutPart where
  kind : PartKind
  span : Span
deriving DecidableEq, Repr

/-- The layout of a source. -/
structure Layout where
  source : Source
  /-- The parts in order. They cover the source, and none of the schema parts is empty. -/
  parts : List LayoutPart
  /-- The schema without the bodies. -/
  schemaText : List Char

namespace Layout

/-- The parts from an offset on, given the spans of the bodies. -/
def partsFrom (size cursor : Nat) : List Span → List LayoutPart
  | [] => if cursor < size then [⟨.declarative, ⟨cursor, size⟩⟩] else []
  | span :: rest =>
    (if cursor < span.start then [⟨.declarative, ⟨cursor, span.start⟩⟩] else []) ++
      ⟨.expression, span⟩ :: partsFrom size span.stop rest

/-- An offset that does not lie beyond the end. -/
def clamp (l : Layout) (offset : Nat) : Nat := min offset l.source.size

/-- The line and column of an offset. -/
def position (l : Layout) (offset : Nat) : Nat × Nat := l.source.position (l.clamp offset)

end Layout

/-- The layout of a composite source. It fails as the extraction of its bodies fails. -/
def inspect (source : Source) : Except Diagnostic Layout := do
  let spans := (← extract source).spans
  return ⟨source, Layout.partsFrom source.size 0 spans, excise source.chars spans⟩

end FieldScript
