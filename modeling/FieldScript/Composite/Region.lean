import FieldScript.Syntax.Basic

/-!
# Regions of a composite source

A composite source is a schema in which the fields of the operation types carry their bodies. A
region is the text of one body with its braces. Excision is what is left of a text once spans are cut out of it.
-/

namespace FieldScript

/-- The types whose fields may carry bodies. -/
inductive Container where
  | query
  | mutation
  | subscription
deriving DecidableEq, Repr

namespace Container

/-- The containers in the order in which they are listed. -/
def all : List Container := [.query, .mutation, .subscription]

def name : Container → String
  | .query => "Query"
  | .mutation => "Mutation"
  | .subscription => "Subscription"

/-- The container of a name. -/
def ofName? (name : String) : Option Container := all.find? (·.name == name)

theorem ofName?_name (c : Container) : ofName? c.name = some c := by
  cases c <;> decide

end Container

/-- A body with its braces, and the field it belongs to. -/
structure Region where
  container : Container
  field : String
  span : Span
deriving DecidableEq, Repr

/-- The body of a field. -/
structure FieldBody where
  container : Container
  field : String
  expr : Expr

/-- The regions of a source in order, and one body for each field. -/
structure Extraction where
  regions : List Region
  bodies : List FieldBody

namespace Extraction

def empty : Extraction := ⟨[], []⟩

/-- The spans of the regions. -/
def spans (x : Extraction) : List Span := x.regions.map (·.span)

/-- The body of a field. -/
def body? (x : Extraction) (container : Container) (field : String) : Option FieldBody :=
  x.bodies.find? fun b => b.container == container && b.field == field

/-- Sets the body of a field: a field that has one keeps its place. -/
def setBody (body : FieldBody) : List FieldBody → List FieldBody
  | [] => [body]
  | b :: rest =>
    if b.container = body.container ∧ b.field = body.field then body :: rest
    else b :: setBody body rest

/-- Adds a region and its body. -/
def add (x : Extraction) (region : Region) (expr : Expr) : Extraction :=
  ⟨x.regions ++ [region], setBody ⟨region.container, region.field, expr⟩ x.bodies⟩

end Extraction

/-! ## Excision -/

/-- Cuts out spans, given the offset up to which the text is dealt with. -/
def exciseFrom (text : List Char) (cursor : Nat) : List Span → List Char
  | [] => Text.slice cursor (Text.byteLength text) text
  | span :: rest =>
    let size := Text.byteLength text
    let start := min span.start size
    let kept := if cursor < start then Text.slice cursor start text else []
    kept ++ exciseFrom text (max cursor (min span.stop size)) rest

/-- A text without the spans, which are ordered by their starts. What lies beyond the end is
ignored. -/
def excise (text : List Char) (spans : List Span) : List Char := exciseFrom text 0 spans

/-- Nothing cut out leaves the text. -/
theorem excise_nil (text : List Char) : excise text [] = text := by
  have h := Text.takeBytes?_append text []
  simp only [List.append_nil] at h
  simp [excise, exciseFrom, Text.slice, Text.slice?, h]

end FieldScript
