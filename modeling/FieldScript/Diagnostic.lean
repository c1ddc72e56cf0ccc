import FieldScript.Source

/-!
# Diagnostics

What a failed analysis reports: a code, a message and a place. The hundreds of the code give its
category; the kind is the name a user sees.
-/

namespace FieldScript

namespace Diagnostic

/-- The numeric code of a diagnostic. -/
structure Code where
  number : Nat
deriving DecidableEq, Repr, Inhabited

/-- The area a code belongs to. -/
inductive Category where
  | syntactic
  | schema
  | capability
  | internal
deriving DecidableEq, Repr

/-- The kind of failure as users know it. -/
inductive Kind where
  | missingFieldName
  | embeddedExpressionSyntax
  | unexpectedToken
  | schemaValidation
  | capabilityViolation
  | internal
deriving DecidableEq, Repr

/-- The text that a location refers to. -/
inductive Origin where
  /-- The composite source as it was handed in. -/
  | composite
  /-- The schema that is left once the embedded expressions are cut out. -/
  | pureSchema
deriving DecidableEq, Repr

namespace Code

def unexpectedToken : Code := ⟨100⟩
def missingFieldName : Code := ⟨101⟩
def expressionSyntax : Code := ⟨102⟩
def unbalancedParens : Code := ⟨103⟩
def schemaSyntax : Code := ⟨200⟩
def schemaInvalid : Code := ⟨201⟩
def freeVariable : Code := ⟨400⟩
def forbiddenConstruct : Code := ⟨401⟩
def internal : Code := ⟨900⟩

/-- The hundreds of a code decide its category. -/
def category (c : Code) : Category :=
  if c.number / 100 = 1 then .syntactic
  else if c.number / 100 = 2 then .schema
  else if c.number / 100 = 4 then .capability
  else .internal

/-- Three syntax codes have a kind of their own; schema and capability codes share one each. -/
def kind (c : Code) : Kind :=
  if c = unexpectedToken then .unexpectedToken
  else if c = missingFieldName then .missingFieldName
  else if c = expressionSyntax ∨ c = unbalancedParens then .embeddedExpressionSyntax
  else
    match c.category with
    | .schema => .schemaValidation
    | .capability => .capabilityViolation
    | _ => .internal

def render (c : Code) : String := s!"E{c.number}"

end Code

def Category.name : Category → String
  | .syntactic => "syntax"
  | .schema => "schema"
  | .capability => "capability"
  | .internal => "internal"

def Kind.name : Kind → String
  | .missingFieldName => "MissingFieldNameError"
  | .embeddedExpressionSyntax => "EmbeddedExpressionSyntaxError"
  | .unexpectedToken => "UnexpectedTokenError"
  | .schemaValidation => "SchemaValidationError"
  | .capabilityViolation => "CapabilityViolationError"
  | .internal => "InternalError"

def Origin.name : Origin → String
  | .composite => "composite"
  | .pureSchema => "pureSchema"

end Diagnostic

/-- A located failure. -/
structure Diagnostic where
  code : Diagnostic.Code
  message : String
  location : Location
  origin : Diagnostic.Origin
deriving DecidableEq, Repr

namespace Diagnostic

/-- A failure located in the composite source. -/
def inComposite (code : Code) (message : String) (location : Location) : Diagnostic :=
  ⟨code, message, location, .composite⟩

/-- A failure located in the pure schema. -/
def inSchema (code : Code) (message : String) (location : Location) : Diagnostic :=
  ⟨code, message, location, .pureSchema⟩

/-- A failure of the tool itself, which has no place in any text. -/
def internal (message : String) : Diagnostic :=
  ⟨.internal, message, .none, .composite⟩

def kind (d : Diagnostic) : Kind := d.code.kind

def category (d : Diagnostic) : Category := d.code.category

/-- One line for a terminal. -/
def render (d : Diagnostic) : String :=
  s!"{d.location.render}: {d.code.render} [{d.kind.name}] {d.message}"

end Diagnostic
end FieldScript
