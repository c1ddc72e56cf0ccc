import FieldScript.Syntax.Parse

/-!
# Functions that every body may call

Three small functions are at hand in every field body. The ones that a body refers to are declared
in front of it, in the order in which they are listed here.
-/

namespace FieldScript

/-- Why no text can be made of a body. -/
inductive GenerateFault where
  | functionExpression
  | functionDeclaration
  | thisExpression
  | unknownHelper (name : String)
  | unreadableHelper (name : String) (cause : Diagnostic)

namespace GenerateFault

/-- Whether a body holds a construct that validation refuses. The other faults are faults of this
library. -/
def isUnsupported : GenerateFault → Bool
  | .functionExpression | .functionDeclaration | .thisExpression => true
  | _ => false

/-- The wording of a fault. -/
def message : GenerateFault → String
  | .functionExpression => "unsupported construct: function expression"
  | .functionDeclaration => "unsupported construct: function declaration"
  | .thisExpression => "unsupported construct: this"
  | .unknownHelper name => "internal codegen error: unknown helper '" ++ name ++ "'"
  | .unreadableHelper name cause =>
    "internal codegen error: helper '" ++ name ++ "' does not parse: " ++ cause.render

end GenerateFault

namespace Prelude

/-- A value, or a replacement where there is none. -/
def either : String := "(x, value) => x === undefined ? value : x"

/-- Hands an intermediate result to a function. -/
def use : String := "(x, cb) => cb(x)"

/-- Appends the entries of an object that are neither null nor undefined as a query. -/
def cq : String :=
  "(url, obj) => url + (Object.keys(obj).filter(m => obj?.[m] !== undefined && obj?.[m] !== null)" ++
  ".length ? `?$\x7bObject.keys(obj).filter(m => obj?.[m] !== undefined && obj?.[m] !== null)" ++
  ".map(m => `$\x7bencodeURIComponent(m)\x7d=$\x7bencodeURIComponent(obj[m])\x7d`).join('&')\x7d` : '')"

/-- Every function with its text, in the order of declaration. -/
def all : List (String × String) := [("either", either), ("use", use), ("cq", cq)]

def names : List String := all.map (·.1)

def contains (name : String) : Bool := names.contains name

/-- The text of a function. -/
def source? (name : String) : Option String := all.lookup name

/-- The declaration of a function. -/
def declaration (name : String) : Except GenerateFault Stmt :=
  match source? name with
  | none => .error (.unknownHelper name)
  | some text =>
    match (Source.ofString text).expr with
    | .error cause => .error (.unreadableHelper name cause)
    | .ok init =>
      let span := Span.point 0
      .ok (.declare (.mk .const [.mk (.ident ⟨name, span⟩) (some init) span] span) span)

end Prelude
end FieldScript
