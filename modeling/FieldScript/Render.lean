import FieldScript.Capability
import FieldScript.Locals
import FieldScript.Prelude

/-!
# The text of settled bodies

Every operator stands in parentheses, so that the text never depends on precedence. Capabilities are
members of one object and arguments members of another; a local name shadows both.
-/

namespace FieldScript.Render

/-- The object whose members are the capabilities. -/
def apiObject : String := "$api"

/-- The object whose members are the arguments of the field. -/
def dataObject : String := "$data"

/-- What a body may refer to from outside. -/
structure Outside where
  capabilities : Capabilities
  args : List String

/-- A step of rendering. -/
abbrev Text (α : Type) := ReaderT Outside (StateT Locals (Except GenerateFault)) α

/-- What a name that is used as a value means. -/
inductive Meaning where
  /-- A local name, or a name that every body has. -/
  | plain
  | capability
  | argument
deriving DecidableEq, Repr

/-- Local names come first, then capabilities, then arguments. -/
def meaning (out : Outside) (locals : Locals) (name : String) : Meaning :=
  if locals.contains name then .plain
  else if out.capabilities.contains name then .capability
  else if out.args.contains name then .argument
  else .plain

/-- How a name of a meaning is written. -/
def spell (name : String) : Meaning → String
  | .plain => name
  | .capability => apiObject ++ "." ++ name
  | .argument => dataObject ++ "." ++ name

/-- How a name is written where it is used as a value. -/
def resolve (name : String) : Text String := do
  return spell name (meaning (← read) (← get) name)

/-- Runs a step in a scope of its own. -/
def inScope {α : Type} (step : Text α) : Text α := do
  modify Locals.push
  let x ← step
  modify Locals.pop
  return x

def declareAll (names : List String) : Text Unit := modify (·.declareAll names)

/-- Texts with a comma between them. -/
def commas (texts : List String) : String := ", ".intercalate texts

/-- How names inside a pattern are written. -/
inductive Mode where
  /-- They are new, and written as they are. -/
  | bind
  /-- They are used like any other name. -/
  | assign
deriving DecidableEq, Repr

/-- A list in which an element may be left out: one at the end needs a comma of its own. -/
def listText (texts : List String) (endsWithHole : Bool) : String :=
  "[" ++ commas texts ++ (if endsWithHole then "," else "") ++ "]"

def Item.isHole : Item → Bool
  | .hole => true
  | _ => false

def Pattern.isHole : Pattern → Bool
  | .hole => true
  | _ => false

/-- Operands of accesses and calls: an `await` needs parentheses there. -/
def operandText (e : Expr) (text : String) : String :=
  match e with
  | .await .. => "(" ++ text ++ ")"
  | _ => text

/-- The pieces of a template with the substitutions between them. -/
def templateText : List TemplatePart → List String → String
  | [], _ => ""
  | part :: parts, text :: texts =>
    part.raw ++ "$\x7b" ++ text ++ "\x7d" ++ templateText parts texts
  | part :: parts, [] => part.raw ++ templateText parts []

mutual

/-- The text of an expression. -/
def expr : Expr → Text String
  | .literal lit _ => return lit.raw
  | .template parts es _ => do
    let texts ← exprs es
    return "`" ++ templateText parts texts ++ "`"
  | .array es _ => do
    return listText (← items es) (es.getLast?.any Item.isHole)
  | .object ps _ => do
    return "(\x7b " ++ commas (← properties ps) ++ " \x7d)"
  | .identifier name _ => resolve name
  | .member object k optional _ => do
    let o := operandText object (← expr object)
    match k with
    | .name id => return o ++ (if optional then "?." else ".") ++ id.name
    | .literal lit => return o ++ (if optional then "?.[" else "[") ++ lit.raw ++ "]"
    | .computed e =>
      let e ← expr e
      return o ++ (if optional then "?.[" else "[") ++ e ++ "]"
  | .call callee args optional _ => do
    let c := operandText callee (← expr callee)
    let args ← items args
    return c ++ (if optional then "?.(" else "(") ++ commas args ++ ")"
  | .arrow ps body isAsync _ => inScope do
    let ps ← params ps
    let body ← arrowBody body
    return "(" ++ (if isAsync then "async " else "") ++ "(" ++ commas ps ++ ") => " ++ body ++ ")"
  | .function _ => throw .functionExpression
  | .this _ => throw .thisExpression
  | .await e _ => do
    let e ← expr e
    return "await " ++ e
  | .unary op e _ => do
    let e ← expr e
    return "(" ++ op.text ++ (if op.isWord then " " else "") ++ e ++ ")"
  | .update op before target _ => do
    let t ← pattern .assign target
    return "(" ++ (if before then op.text else "") ++ t ++ (if before then "" else op.text) ++ ")"
  | .binary op l r _ => do
    let l ← expr l
    let r ← expr r
    return "(" ++ l ++ " " ++ op.text ++ " " ++ r ++ ")"
  | .logical op l r _ => do
    let l ← expr l
    let r ← expr r
    return "(" ++ l ++ " " ++ op.text ++ " " ++ r ++ ")"
  | .conditional test yes no _ => do
    let test ← expr test
    let yes ← expr yes
    let no ← expr no
    return "((" ++ test ++ ") ? (" ++ yes ++ ") : (" ++ no ++ "))"
  | .assign op target value _ => do
    let t ← pattern .assign target
    let v ← expr value
    return "(" ++ t ++ " " ++ op.text ++ " " ++ v ++ ")"
  | .sequence es _ => do
    return "(" ++ commas (← exprs es) ++ ")"

/-- The texts of expressions. -/
def exprs : List Expr → Text (List String)
  | [] => return []
  | e :: more => do
    let e ← expr e
    return e :: (← exprs more)

/-- The texts of elements or arguments. -/
def items : List Item → Text (List String)
  | [] => return []
  | .hole :: more => return "" :: (← items more)
  | .expr e :: more => do
    let e ← expr e
    return e :: (← items more)
  | .spread e :: more => do
    let e ← expr e
    return ("..." ++ e) :: (← items more)

/-- The text of a key in front of a colon. -/
def key : Key → Text String
  | .name id => return id.name
  | .literal lit => return lit.raw
  | .computed e => do
    let e ← expr e
    return "[" ++ e ++ "]"

/-- The texts of the entries of an object. A short entry whose name is a capability or an argument
is written in full. -/
def properties : List Property → Text (List String)
  | [] => return []
  | .init k value shorthand _ :: more => do
    let text ←
      if shorthand then
        let v ← expr value
        let out ← read
        match k with
        | .name id =>
          if out.capabilities.contains id.name || out.args.contains id.name then
            pure (id.name ++ ": " ++ v)
          else pure v
        | _ => pure v
      else
        let k ← key k
        let v ← expr value
        pure (k ++ ": " ++ v)
    return text :: (← properties more)
  | .spread e :: more => do
    let e ← expr e
    return ("...(" ++ e ++ ")") :: (← properties more)

/-- The text of the body of an arrow function. -/
def arrowBody : ArrowBody → Text String
  | .expr e => expr e
  | .block b => block b

/-- The texts of parameters, each visible to the ones behind it. -/
def params : List Pattern → Text (List String)
  | [] => return []
  | p :: more => do
    let text ← pattern .bind p
    declareAll p.boundNames
    return text :: (← params more)

/-- The text of a pattern. -/
def pattern (mode : Mode) : Pattern → Text String
  | .ident id =>
    match mode with
    | .bind => return id.name
    | .assign => resolve id.name
  | .array elements _ => do
    return listText (← patterns mode elements) (elements.getLast?.any Pattern.isHole)
  | .object props _ => do
    return "\x7b " ++ commas (← patternProps mode props) ++ " \x7d"
  | .assign target default => do
    let t ← pattern mode target
    let d ← expr default
    return t ++ " = " ++ d
  | .rest target => do
    let t ← pattern mode target
    return "..." ++ t
  | .member e => expr e
  | .hole => return ""

/-- The texts of the elements of an array pattern. -/
def patterns (mode : Mode) : List Pattern → Text (List String)
  | [] => return []
  | p :: more => do
    let text ← pattern mode p
    return text :: (← patterns mode more)

/-- The texts of the entries of an object pattern. A short entry is written in full where its name
is not written as it is. -/
def patternProps (mode : Mode) : List PatternProp → Text (List String)
  | [] => return []
  | .init k value shorthand :: more => do
    let full ← match k with
      | .name id => pure (!shorthand || (mode == .assign && (← resolve id.name) != id.name))
      | _ => pure !shorthand
    let k ← if full then (· ++ ": ") <$> key k else pure ""
    let v ← pattern mode value
    return (k ++ v) :: (← patternProps mode more)
  | .rest target :: more => do
    let t ← pattern mode target
    return ("..." ++ t) :: (← patternProps mode more)

/-- The text of statements between braces. -/
def block : Block → Text String
  | .mk stmts _ => inScope do
    let texts ← statements stmts
    return "\x7b " ++ " ".intercalate texts ++ " \x7d"

/-- The texts of statements. -/
def statements : List Stmt → Text (List String)
  | [] => return []
  | s :: more => do
    let text ← statement s
    return text :: (← statements more)

/-- The text of a statement. -/
def statement : Stmt → Text String
  | .expr e _ => do
    let e ← expr e
    return e ++ ";"
  | .declare d _ => do
    let d ← varDecl d
    return d ++ ";"
  | .return (some e) _ => do
    let e ← expr e
    return "return " ++ e ++ ";"
  | .return none _ => return "return;"
  | .cond test yes no _ => do
    let test ← expr test
    let yes ← statement yes
    match no with
    | none => return "if (" ++ test ++ ") " ++ yes
    | some no =>
      let no ← statement no
      return "if (" ++ test ++ ") " ++ yes ++ " else " ++ no
  | .while test body _ => do
    let test ← expr test
    let body ← statement body
    return "while (" ++ test ++ ") " ++ body
  | .doWhile body test _ => do
    let body ← statement body
    let test ← expr test
    return "do " ++ body ++ " while (" ++ test ++ ");"
  | .for init test update body _ => inScope do
    let init ← match init with
      | .absent => pure ""
      | .declare d => varDecl d
      | .expr e => expr e
    let test ← match test with
      | some e => expr e
      | none => pure ""
    let update ← match update with
      | some e => expr e
      | none => pure ""
    let body ← statement body
    return "for (" ++ init ++ "; " ++ test ++ "; " ++ update ++ ") " ++ body
  | .block b => block b
  | .break _ => return "break;"
  | .continue _ => return "continue;"
  | .debugger _ => return "debugger;"
  | .empty _ => return ";"
  | .function _ => throw .functionDeclaration

/-- The text of a declaration without a semicolon. A name is visible behind its own declarator. -/
def varDecl : VarDecl → Text String
  | .mk kind ds _ => do
    let ds ← declarators ds
    return kind.text ++ " " ++ commas ds

/-- The texts of declarators. -/
def declarators : List Declarator → Text (List String)
  | [] => return []
  | .mk target init _ :: more => do
    let t ← pattern .bind target
    let text ← match init with
      | some e => do
        let e ← expr e
        pure (t ++ " = " ++ e)
      | none => pure t
    declareAll target.boundNames
    return text :: (← declarators more)

end

/-- Runs a rendering in the outermost scope. -/
def run (step : Text String) (capabilities : Capabilities) (args : List String) :
    Except GenerateFault String :=
  (·.1) <$> (step.run ⟨capabilities, args⟩).run Locals.empty.push

end FieldScript.Render
