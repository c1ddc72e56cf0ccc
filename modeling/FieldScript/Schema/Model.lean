import FieldScript.Diagnostic
import FieldScript.Schema.Grammar

/-!
# Schemas

The types that a schema document defines, with its extensions worked in, and what can be looked up in
them. Faults are located in the text of the document.
-/

namespace FieldScript.Schema

/-- Types that need no definition. -/
def builtinScalars : List String := ["Int", "Float", "String", "Boolean", "ID"]

/-- What is wrong with a schema that follows the grammar. -/
inductive SchemaFault where
  | repeatedSchema
  | repeatedType (name : String)
  | repeatedField (type field : String)
  | extendsUndefined (name : String)
  | missingQuery
  | rootKind (operation name : String)
  | unknownType (name : String)
  | noFields (name : String)
  | noMembers (name : String)
  | memberKind (name member : String)
  | noValues (name : String)
  | noInputFields (name : String)
  | position (coordinate : String) (input : Bool) (written : String)
  | interfaceKind (name interface : String)
  | missingField (interface field name : String)
deriving DecidableEq, Repr

/-- The wording of a fault. -/
def SchemaFault.message : SchemaFault → String
  | .repeatedSchema => "Must provide only one schema definition."
  | .repeatedType name => "There can be only one type named \"" ++ name ++ "\"."
  | .repeatedField type field => "Field \"" ++ type ++ "." ++ field ++ "\" can only be defined once."
  | .extendsUndefined name => "Cannot extend type \"" ++ name ++ "\" because it is not defined."
  | .missingQuery => "Query root type must be provided."
  | .rootKind operation name =>
    operation ++ " root type must be Object type, it cannot be " ++ name ++ "."
  | .unknownType name => "Unknown type \"" ++ name ++ "\"."
  | .noFields name => "Type " ++ name ++ " must define one or more fields."
  | .noMembers name => "Union type " ++ name ++ " must define one or more member types."
  | .memberKind name member =>
    "Union type " ++ name ++ " can only include Object types, it cannot include " ++ member ++ "."
  | .noValues name => "Enum type " ++ name ++ " must define one or more values."
  | .noInputFields name => "Input Object type " ++ name ++ " must define one or more fields."
  | .position coordinate input written =>
    "The type of " ++ coordinate ++ " must be " ++ (if input then "Input" else "Output") ++
      " Type but got: " ++ written ++ "."
  | .interfaceKind name interface =>
    "Type " ++ name ++ " must only implement Interface types, it cannot implement " ++ interface ++
      "."
  | .missingField interface field name =>
    "Interface field " ++ interface ++ "." ++ field ++ " expected but " ++ name ++
      " does not provide it."

/-- The result of a check: nothing, or a fault and its place. -/
abbrev Checked (α : Type) := Except (SchemaFault × Place) α

/-! ## Places as offsets -/

/-- The offset at which a line starts, and the line with its line feed and what follows. -/
def lineAt : Nat → List Char → Nat × List Char
  | 0, text => (0, text)
  | n + 1, text =>
    match text.dropWhile (· ≠ '\n') with
    | [] => (Text.byteLength text, [])
    | _ :: rest =>
      let (start, line) := lineAt n rest
      (Text.byteLength (text.takeWhile (· ≠ '\n')) + 1 + start, line)

/-- The characters of the first line of a text with its line feed. -/
def firstLine (text : List Char) : List Char :=
  let line := text.takeWhile (· ≠ '\n')
  line ++ (text.drop line.length).take 1

/-- The offset of a place. A place behind its line is the end of the line. -/
def Place.offset (p : Place) (text : List Char) : Nat :=
  let (start, rest) := lineAt (p.line - 1) text
  start + Text.byteLength ((firstLine rest).take (p.column - 1))

/-- The location of a place. -/
def Place.location (p : Place) (text : List Char) : Location :=
  ⟨p.line, p.column, Span.point (p.offset text)⟩

/-- What stands in front of every message about a schema. -/
def messageHead : String := "Error in GraphQL schema: "

/-- The diagnostic of a document that does not follow the grammar. -/
def grammarDiagnostic (text : List Char) (p : Place) : Diagnostic :=
  .inSchema .schemaSyntax
    (messageHead ++ "Parse error at " ++ Nat.repr p.line ++ ":" ++ Nat.repr p.column)
    (p.location text)

/-- The diagnostic of a fault. -/
def faultDiagnostic (text : List Char) (fault : SchemaFault × Place) : Diagnostic :=
  .inSchema .schemaInvalid (messageHead ++ fault.1.message) (fault.2.location text)

end Schema

/-! ## The schema -/

/-- The types that operations start from. -/
structure Roots where
  query : String
  mutation : Option String
  subscription : Option String
  /-- Whether a schema definition names them. -/
  explicit : Bool
deriving DecidableEq, Repr

/-- A schema and the text it was read from. -/
structure Schema where
  text : List Char
  /-- In the order of their definitions. -/
  types : List Schema.TypeDef
  roots : Roots
deriving Repr

namespace Schema

/-- The roots without a schema definition. -/
def defaultRoots : Roots := ⟨"Query", none, none, false⟩

/-- A schema in the making. -/
structure Draft where
  types : List TypeDef
  roots : Roots
  /-- In the order in which they are written. -/
  extensions : List TypeDef

/-- Adds a definition. -/
def Draft.add (d : Draft) (definition : Definition) : Checked Draft :=
  match definition with
  | .schema s =>
    if d.roots.explicit then .error (.repeatedSchema, s.place)
    else .ok { d with roots := ⟨s.query.getD "Query", s.mutation, s.subscription, true⟩ }
  | .type t =>
    if d.types.any (·.name == t.name) || builtinScalars.contains t.name then
      .error (.repeatedType t.name, t.place)
    else .ok { d with types := d.types ++ [t] }
  | .extension e => .ok { d with extensions := d.extensions ++ [e] }
  | .directive => .ok d

/-- A type with what an extension adds to it, whatever kinds the two are of. -/
def TypeDef.extend (t e : TypeDef) : TypeDef :=
  { t with
    fields := t.fields ++ e.fields
    inputFields := t.inputFields ++ e.inputFields
    members := t.members ++ e.members
    values := t.values ++ e.values }

/-- Works an extension into the type of its name. -/
def applyExtension (types : List TypeDef) (e : TypeDef) : Checked (List TypeDef) :=
  if types.any (·.name == e.name) then
    .ok (types.map fun t => if t.name == e.name then t.extend e else t)
  else .error (.extendsUndefined e.name, e.place)

/-- The first name that occurred before, with its place. -/
def repeated? : List String → List (String × Place) → Option (String × Place)
  | _, [] => none
  | seen, (name, place) :: rest =>
    if seen.contains name then some (name, place) else repeated? (name :: seen) rest

/-- Refuses a field that is defined twice. -/
def checkFieldNames (t : TypeDef) : Checked Unit :=
  let names := t.fields.map (fun f => (f.name, f.place)) ++
    t.inputFields.map fun f => (f.name, f.place)
  match repeated? [] names with
  | some (field, place) => .error (.repeatedField t.name field, place)
  | none => .ok ()

/-- The types and roots of a document. -/
def assemble (all : List Definition) : Checked (List TypeDef × Roots) := do
  let draft ← all.foldlM Draft.add ⟨[], defaultRoots, []⟩
  let types ← draft.extensions.foldlM applyExtension draft.types
  for t in types do checkFieldNames t
  return (types, draft.roots)

/-- Reads a schema. -/
def read (text : List Char) : Except Diagnostic Schema :=
  match definitions text with
  | .error place => .error (grammarDiagnostic text place)
  | .ok all =>
    match assemble all with
    | .error fault => .error (faultDiagnostic text fault)
    | .ok (types, roots) => .ok ⟨text, types, roots⟩

/-- The type of a name. -/
def get? (s : Schema) (name : String) : Option TypeDef := s.types.find? (·.name == name)

/-- The names of a field's arguments in the order of their declaration. What is no field of an
object has none. -/
def arguments (s : Schema) (type field : String) : List String :=
  match s.get? type with
  | some t =>
    if t.kind = .object then ((t.field? field).map fun f => f.args.map (·.name)).getD [] else []
  | none => []

end Schema
end FieldScript
