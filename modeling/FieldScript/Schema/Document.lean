import FieldScript.Schema.Lexeme

/-!
# Schema documents

The definitions that a schema document is made of, as far as they matter here: descriptions, default
values and directives are read and forgotten.
-/

namespace FieldScript.Schema

/-- A reference to a type. -/
inductive TypeExpr where
  | named (name : String)
  | list (item : TypeExpr)
  | nonNull (inner : TypeExpr)
deriving DecidableEq, Repr

namespace TypeExpr

/-- The name inside all lists. -/
def innermost : TypeExpr → String
  | .named name => name
  | .list item => item.innermost
  | .nonNull inner => inner.innermost

/-- The written form of a reference. -/
def render : TypeExpr → String
  | .named name => name
  | .list item => "[" ++ item.render ++ "]"
  | .nonNull inner => inner.render ++ "!"

end TypeExpr

/-- An argument, or a field of an input object. -/
structure InputDef where
  name : String
  type : TypeExpr
  place : Place
deriving DecidableEq, Repr

/-- A field of an object or an interface. -/
structure FieldDef where
  name : String
  type : TypeExpr
  args : List InputDef
  place : Place
deriving DecidableEq, Repr

/-- What a type is. -/
inductive TypeKind where
  | scalar
  | object
  | interface
  | union
  | enum
  | inputObject
deriving DecidableEq, Repr

namespace TypeKind

def name : TypeKind → String
  | .scalar => "Scalar"
  | .object => "Object"
  | .interface => "Interface"
  | .union => "Union"
  | .enum => "Enum"
  | .inputObject => "InputObject"

/-- Whether arguments may have types of a kind. -/
def isInput : TypeKind → Bool
  | .scalar | .enum | .inputObject => true
  | _ => false

/-- Whether fields may have types of a kind. -/
def isOutput : TypeKind → Bool
  | .inputObject => false
  | _ => true

end TypeKind

/-- A type with everything that a definition of some kind may bring. -/
structure TypeDef where
  name : String
  kind : TypeKind
  /-- The fields of an object or an interface. -/
  fields : List FieldDef
  /-- The fields of an input object. -/
  inputFields : List InputDef
  /-- The interfaces of an object or the members of a union. -/
  members : List String
  /-- The values of an enumeration. -/
  values : List String
  place : Place
deriving DecidableEq, Repr

/-- The field of a name. -/
def TypeDef.field? (d : TypeDef) (name : String) : Option FieldDef :=
  d.fields.find? (·.name == name)

/-- The operations that a schema definition names. -/
structure SchemaDef where
  query : Option String
  mutation : Option String
  subscription : Option String
  place : Place
deriving DecidableEq, Repr

/-- A definition of a document. -/
inductive Definition where
  | schema (d : SchemaDef)
  | type (d : TypeDef)
  /-- What is added to a type of that name. -/
  | extension (d : TypeDef)
  | directive
deriving Repr

end FieldScript.Schema
