import FieldScript.Schema.Document

/-!
# The grammar of schema documents

A rule looks at the next lexeme only, so a document that does not follow the grammar is reported at
the first lexeme that no rule accepts. A few definitions are refused although each lexeme is
acceptable: an extension that adds nothing, and a schema definition that names an operation twice or
one that does not exist. They are reported where they start.
-/

namespace FieldScript.Schema

/-- Reads lexemes, or reports a place. -/
abbrev Rule := StateT (List Lexeme) (Except Place)

namespace Rule

/-- The next lexeme. -/
def peek : Rule Lexeme := do
  return (← get).head?.getD ⟨.eof, ⟨1, 1⟩⟩

/-- Reports the next lexeme. -/
def refuse {α : Type} : Rule α := do throw (← peek).place

/-- Passes the next lexeme. -/
def pass : Rule Unit := modify List.tail

/-- Whether the next lexeme is a mark. -/
def sees (c : Char) : Rule Bool := do return (← peek).kind == .mark c

/-- Whether the next lexeme is a certain word. -/
def seesWord (word : String) : Rule Bool := do return (← peek).kind == .name word

/-- A mark. -/
def mark (c : Char) : Rule Unit := do
  if ← sees c then pass else refuse

/-- A certain word. -/
def word (text : String) : Rule Unit := do
  if ← seesWord text then pass else refuse

/-- A name. -/
def name : Rule String := do
  match (← peek).kind with
  | .name text =>
    pass
    return text
  | _ => refuse

/-- A mark that may be left out; whether it is there. -/
def optionalMark (c : Char) : Rule Bool := do
  if ← sees c then
    pass
    return true
  else return false

/-- A description, which may be left out. -/
def description : Rule Unit := do
  if (← peek).kind == .text then pass

/-- Things one after another, as long as the next lexeme may start one. -/
def manyWhile {α : Type} (starts : LexemeKind → Bool) (rule : Rule α) : Nat → Rule (List α)
  | 0 => return []
  | fuel + 1 => do
    if starts (← peek).kind then
      let x ← rule
      return x :: (← manyWhile starts rule fuel)
    else return []

/-- As many things as there are lexemes, at most. -/
def many {α : Type} (starts : LexemeKind → Bool) (rule : Rule α) : Rule (List α) := do
  manyWhile starts rule (← get).length

/-- At least one thing. -/
def many1 {α : Type} (starts : LexemeKind → Bool) (rule : Rule α) : Rule (List α) := do
  let first ← rule
  return first :: (← many starts rule)

/-- Names divided by a mark, which may also stand in front of them. -/
def namesBy (divider : Char) : Rule (List String) := do
  let _ ← optionalMark divider
  let first ← name
  return first :: (← many (· == .mark divider) (do mark divider; name))

/-- Whether a lexeme is a name. -/
def isName : LexemeKind → Bool
  | .name _ => true
  | _ => false

/-- Whether a lexeme may start something with a description. -/
def isDescribed : LexemeKind → Bool
  | .name _ | .text => true
  | _ => false

/-! ## Values and directives -/

/-- Whether a lexeme may start a value. -/
def isValueStart (withVariables : Bool) : LexemeKind → Bool
  | .name _ | .number | .text => true
  | .mark c => c == '[' || c == '{' || (withVariables && c == '$')
  | _ => false

/-- A value. Default values have no variables. The fuel bounds the nesting. -/
def value (withVariables : Bool) : Nat → Rule Unit
  | 0 => refuse
  | fuel + 1 => do
    match (← peek).kind with
    | .name _ | .number | .text => pass
    | .mark c =>
      if c == '[' then
        pass
        let _ ← many (isValueStart withVariables) (value withVariables fuel)
        mark ']'
      else if c == '{' then
        pass
        let _ ← many isName (do
          let _ ← name
          mark ':'
          value withVariables fuel)
        mark '}'
      else if withVariables && c == '$' then
        pass
        let _ ← name
      else refuse
    | _ => refuse

/-- A value whose nesting is bounded by the number of lexemes. -/
def anyValue (withVariables : Bool) : Rule Unit := do value withVariables ((← get).length + 1)

/-- Directives; whether there are any. -/
def directives : Rule Bool := do
  let all ← many (· == .mark '@') do
    mark '@'
    let _ ← name
    if ← optionalMark '(' then
      let _ ← many1 isName (do
        let _ ← name
        mark ':'
        anyValue true)
      mark ')'
  return !all.isEmpty

/-! ## Types, arguments and fields -/

/-- A reference to a type. The fuel bounds the nesting of lists. -/
def typeWithin : Nat → Rule TypeExpr
  | 0 => refuse
  | fuel + 1 => do
    let inner ←
      if ← optionalMark '[' then
        let item ← typeWithin fuel
        mark ']'
        pure (TypeExpr.list item)
      else do pure (TypeExpr.named (← name))
    if ← optionalMark '!' then return .nonNull inner else return inner

def typeExpr : Rule TypeExpr := do typeWithin ((← get).length + 1)

/-- An argument, or a field of an input object. -/
def inputValue : Rule InputDef := do
  let place := (← peek).place
  description
  let name ← name
  mark ':'
  let type ← typeExpr
  if ← optionalMark '=' then anyValue false
  let _ ← directives
  return ⟨name, type, place⟩

/-- Things between marks, which may be left out with the marks. -/
def between {α : Type} (opening closing : Char) (rule : Rule α) : Rule (List α) := do
  if ← optionalMark opening then
    let xs ← many1 isDescribed rule
    mark closing
    return xs
  else return []

/-- A field of an object or an interface. -/
def field : Rule FieldDef := do
  let place := (← peek).place
  description
  let name ← name
  let args ← between '(' ')' inputValue
  mark ':'
  let type ← typeExpr
  let _ ← directives
  return ⟨name, type, args, place⟩

/-- The interfaces that a type implements. -/
def interfaces : Rule (List String) := do
  if ← seesWord "implements" then
    pass
    namesBy '&'
  else return []

/-- A value of an enumeration. -/
def enumValue : Rule String := do
  description
  let name ← name
  let _ ← directives
  return name

/-! ## Definitions -/

/-- A type of a name that has nothing yet. -/
def bare (name : String) (kind : TypeKind) (place : Place) : TypeDef :=
  ⟨name, kind, [], [], [], [], place⟩

/-- The words that start definitions of types. -/
def kindOfWord? (word : String) : Option TypeKind :=
  match word with
  | "scalar" => some .scalar
  | "type" => some .object
  | "interface" => some .interface
  | "union" => some .union
  | "enum" => some .enum
  | "input" => some .inputObject
  | _ => none

/-- A type behind the word that starts it; whether it is followed by anything but its name. An
interface that only implements others counts as followed by nothing. -/
def typeOfKind (kind : TypeKind) (place : Place) : Rule (TypeDef × Bool) := do
  let name ← name
  let base := bare name kind place
  match kind with
  | .scalar =>
    let marked ← directives
    return (base, marked)
  | .object =>
    let members ← interfaces
    let marked ← directives
    let fields ← between '{' '}' field
    return ({ base with members, fields }, marked || !members.isEmpty || !fields.isEmpty)
  | .interface =>
    let _ ← interfaces
    let marked ← directives
    let fields ← between '{' '}' field
    return ({ base with fields }, marked || !fields.isEmpty)
  | .union =>
    let marked ← directives
    let members ← if ← optionalMark '=' then namesBy '|' else pure []
    return ({ base with members }, marked || !members.isEmpty)
  | .enum =>
    let marked ← directives
    let values ← between '{' '}' enumValue
    return ({ base with values }, marked || !values.isEmpty)
  | .inputObject =>
    let marked ← directives
    let inputFields ← between '{' '}' inputValue
    return ({ base with inputFields }, marked || !inputFields.isEmpty)

/-- The definition of a type, at the word that starts it; whether anything follows its name. -/
def typeDef : Rule (TypeDef × Bool) := do
  let next ← peek
  match next.kind with
  | .name word =>
    match kindOfWord? word with
    | some kind =>
      pass
      typeOfKind kind next.place
    | none => refuse
  | _ => refuse

/-- An extension has to add something. -/
def extension : Rule Definition := do
  word "extend"
  let place := (← peek).place
  let (d, adds) ← typeDef
  if adds then return .extension d else throw place

/-- Adds an operation to a schema definition that does not have it. -/
def addOperation (d : SchemaDef) (operation name : String) : Option SchemaDef :=
  match operation with
  | "query" => if d.query.isNone then some { d with query := some name } else none
  | "mutation" => if d.mutation.isNone then some { d with mutation := some name } else none
  | "subscription" =>
    if d.subscription.isNone then some { d with subscription := some name } else none
  | _ => none

/-- The definition of the operations. -/
def schemaDef : Rule Definition := do
  let place := (← peek).place
  word "schema"
  let _ ← directives
  mark '{'
  let operations ← many isName (do
    let operation ← name
    mark ':'
    return (operation, ← name))
  mark '}'
  match operations.foldlM (fun d (operation, name) => addOperation d operation name)
      (⟨none, none, none, place⟩ : SchemaDef) with
  | some d => return .schema d
  | none => throw place

/-- The places that a directive may be put at. -/
def directiveLocations : List String :=
  ["QUERY", "MUTATION", "SUBSCRIPTION", "FIELD", "FRAGMENT_DEFINITION", "FRAGMENT_SPREAD",
    "INLINE_FRAGMENT", "VARIABLE_DEFINITION", "SCHEMA", "SCALAR", "OBJECT", "FIELD_DEFINITION",
    "ARGUMENT_DEFINITION", "INTERFACE", "UNION", "ENUM", "ENUM_VALUE", "INPUT_OBJECT",
    "INPUT_FIELD_DEFINITION"]

/-- The name of a place that a directive may be put at. -/
def directiveLocation : Rule Unit := do
  match (← peek).kind with
  | .name text => if directiveLocations.contains text then pass else refuse
  | _ => refuse

/-- The definition of a directive. -/
def directiveDef : Rule Definition := do
  word "directive"
  mark '@'
  let _ ← name
  let _ ← between '(' ')' inputValue
  if ← seesWord "repeatable" then pass
  word "on"
  let _ ← optionalMark '|'
  directiveLocation
  let _ ← many (· == .mark '|') (do mark '|'; directiveLocation)
  return .directive

/-- A definition. Only definitions of types and directives may have a description. -/
def definition : Rule Definition := do
  if ← seesWord "schema" then schemaDef
  else if ← seesWord "extend" then extension
  else
    description
    if ← seesWord "directive" then directiveDef
    else
      let (d, _) ← typeDef
      return .type d

/-- A document: one definition at least, and nothing behind the last one. -/
def document : Rule (List Definition) := do
  let first ← definition
  let more ← many isDescribed definition
  if (← peek).kind == .eof then return first :: more else refuse

end Rule

/-- The definitions of a document, or the place of the first thing that is wrong. -/
def definitions (text : List Char) : Except Place (List Definition) := do
  let (all, _) ← Rule.document.run (Lexeme.ofText text)
  return all

end FieldScript.Schema
