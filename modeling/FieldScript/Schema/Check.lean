import FieldScript.Schema.Model

/-!
# Valid schemas

Every operation starts from an object, every reference names a type of a kind that may stand there, no
type is empty, and objects have the fields of their interfaces. The first fault is reported.
-/

namespace FieldScript.Schema

/-- The kind of a type of a name. -/
def kindOf? (s : Schema) (name : String) : Option TypeKind :=
  if builtinScalars.contains name then some .scalar else (s.get? name).map (·.kind)

/-- The place of faults that have none. -/
def topPlace : Place := ⟨1, 1⟩

/-- Checks the type that an operation starts from. -/
def checkRoot (s : Schema) (operation name : String) : Checked Unit :=
  match s.get? name with
  | some t =>
    if t.kind = .object then .ok () else .error (.rootKind operation t.name, t.place)
  | none =>
    if operation = "Query" && !s.roots.explicit then .error (.missingQuery, topPlace)
    else .error (.unknownType name, topPlace)

/-- Checks the types that operations start from. -/
def checkRoots (s : Schema) : Checked Unit := do
  checkRoot s "Query" s.roots.query
  match s.roots.mutation with
  | some name => checkRoot s "Mutation" name
  | none => pure ()
  match s.roots.subscription with
  | some name => checkRoot s "Subscription" name
  | none => pure ()

/-- Checks that a reference names a type that may stand there. -/
def checkReference (s : Schema) (type : TypeExpr) (place : Place) (coordinate : String)
    (input : Bool) : Checked Unit :=
  match kindOf? s type.innermost with
  | none => .error (.unknownType type.innermost, place)
  | some kind =>
    if (if input then kind.isInput else kind.isOutput) then .ok ()
    else .error (.position coordinate input type.render, place)

/-- Checks the references of a field. -/
def checkField (s : Schema) (t : TypeDef) (f : FieldDef) : Checked Unit := do
  checkReference s f.type f.place (t.name ++ "." ++ f.name) false
  for arg in f.args do
    checkReference s arg.type arg.place (t.name ++ "." ++ f.name ++ "(" ++ arg.name ++ ":)") true

/-- Checks that a type has the fields of an interface. -/
def checkInterface (s : Schema) (t : TypeDef) (interface : String) : Checked Unit :=
  match s.get? interface with
  | none => .error (.unknownType interface, t.place)
  | some i =>
    if i.kind ≠ .interface then .error (.interfaceKind t.name interface, t.place)
    else
      match i.fields.find? fun f => (t.field? f.name).isNone with
      | some f => .error (.missingField interface f.name t.name, t.place)
      | none => .ok ()

/-- Checks a member of a union. -/
def checkMember (s : Schema) (t : TypeDef) (member : String) : Checked Unit :=
  match kindOf? s member with
  | some .object => .ok ()
  | some _ => .error (.memberKind t.name member, t.place)
  | none => .error (.unknownType member, t.place)

/-- Checks a type. -/
def checkType (s : Schema) (t : TypeDef) : Checked Unit := do
  match t.kind with
  | .scalar => return
  | .object | .interface =>
    if t.fields.isEmpty then throw (.noFields t.name, t.place)
    for f in t.fields do checkField s t f
    for i in t.members do checkInterface s t i
  | .union =>
    if t.members.isEmpty then throw (.noMembers t.name, t.place)
    for m in t.members do checkMember s t m
  | .enum => if t.values.isEmpty then throw (.noValues t.name, t.place)
  | .inputObject =>
    if t.inputFields.isEmpty then throw (.noInputFields t.name, t.place)
    for f in t.inputFields do
      checkReference s f.type f.place (t.name ++ "." ++ f.name) true

/-- Checks a schema. -/
def check (s : Schema) : Except Diagnostic Unit :=
  let checked : Checked Unit := do
    checkRoots s
    for t in s.types do checkType s t
  checked.mapError (faultDiagnostic s.text)

end FieldScript.Schema
