import FieldScript.Composite.Extract
import FieldScript.Generate
import FieldScript.Schema.Check
import FieldScript.Text.Digest
import FieldScript.Text.Search
import FieldScript.Validate

/-!
# Compiled modules

A composite source becomes a module: its schema, and for every field with a body a unit that can be
run. The steps follow one another, and the first one that fails decides the outcome: extraction, the
schema document, the validation of each body, the validation of the schema, the generation of each
unit.
-/

namespace FieldScript

/-- What a compilation may be told. -/
structure CompileOptions where
  /-- Whether bodies may be debugged. -/
  debug : Bool
  /-- Puts a boundary around the text of a body. -/
  wrap : String → String
  /-- Changes the text of a unit in the end. -/
  regenerate : Option (String → String)

/-- Bodies are not debugged and get the common boundary. -/
def CompileOptions.default : CompileOptions := ⟨false, errorBoundary, none⟩

/-- The compiled body of a field. -/
structure CompiledUnit where
  container : Container
  field : String
  /-- The names of the field's arguments in the order of the schema. -/
  args : List String
  /-- The text with its boundary. -/
  text : String
  /-- What is run. -/
  block : Block

namespace CompiledUnit

/-- The mark by which the text of an asynchronous unit is known. -/
def asyncMark : List Char := "await ".toList

/-- Whether the text of a unit says that it waits. -/
def isAsync (u : CompiledUnit) : Bool :=
  (Text.indexOf? asyncMark u.text.toList).isSome

/-- What the digest of a module takes from a unit. -/
def bytes (u : CompiledUnit) : List UInt8 :=
  [u.container.name, u.field, u.text].flatMap fun s => s.toUTF8.toList ++ [0]

end CompiledUnit

/-- A compiled module. -/
structure CompiledModule where
  name : String
  source : String
  schema : Schema
  capabilities : Capabilities
  units : List CompiledUnit

namespace CompiledModule

/-- The unit of a field. -/
def unit? (m : CompiledModule) (type field : String) : Option CompiledUnit :=
  m.units.find? fun u => u.container.name == type && u.field == field

/-- The digest of all units. -/
def fingerprint (m : CompiledModule) : String :=
  Text.Digest.hexDigest (m.units.flatMap CompiledUnit.bytes)

end CompiledModule

/-- A body that passed validation, with the arguments of its field. -/
structure CheckedBody where
  body : FieldBody
  args : List String

/-- Validates a body against the arguments of its field. -/
def FieldBody.check (body : FieldBody) (source : Source) (schema : Schema)
    (capabilities : Capabilities) (debug : Bool) : Except Diagnostic CheckedBody := do
  let args := schema.arguments body.container.name body.field
  (body.expr.validate capabilities args debug).mapError (·.toDiagnostic source)
  return ⟨body, args⟩

/-- The unit of a body. -/
def CheckedBody.unit (checked : CheckedBody) (capabilities : Capabilities)
    (options : CompileOptions) : Except Diagnostic CompiledUnit := do
  let generated ← (generate checked.body.expr capabilities checked.args).mapError
    fun fault => Diagnostic.internal fault.message
  let wrapped := options.wrap generated.text
  let text := match options.regenerate with
    | some f => f wrapped
    | none => wrapped
  return ⟨checked.body.container, checked.body.field, checked.args, text, generated.block⟩

/-- Compiles a composite source. -/
def compile (name source : String) (capabilities : Capabilities) (options : CompileOptions) :
    Except Diagnostic CompiledModule := do
  if (Text.trim name.toList).isEmpty then
    throw (.internal "The module name must not be empty.")
  if (Text.trim source.toList).isEmpty then
    throw (.inSchema .schemaSyntax (Schema.messageHead ++ "Unexpected end of input.") .none)
  let text := Source.ofString source
  let extraction ← extract text
  let schema ← Schema.read (excise text.chars extraction.spans)
  let bodies ← extraction.bodies.mapM fun body =>
    body.check text schema capabilities options.debug
  schema.check
  let units ← bodies.mapM fun checked => checked.unit capabilities options
  return ⟨name, source, schema, capabilities, units⟩

end FieldScript
