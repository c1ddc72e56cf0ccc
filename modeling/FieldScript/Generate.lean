import FieldScript.Settle.Tree
import FieldScript.Render

/-!
# Generated bodies

A field body as it is run, together with its text.
-/

namespace FieldScript

/-- The text of an expression as it stands. -/
def Expr.text (e : Expr) (capabilities : Capabilities) (args : List String) :
    Except GenerateFault String :=
  Render.run (Render.expr e) capabilities args

/-- The text of a block as it stands. -/
def Block.text (b : Block) (capabilities : Capabilities) (args : List String) :
    Except GenerateFault String :=
  Render.run (Render.block b) capabilities args

/-- A settled body and its text. -/
structure Generated where
  block : Block
  text : String

/-- Settles a field body and renders it. -/
def generate (body : Expr) (capabilities : Capabilities) (args : List String) :
    Except GenerateFault Generated := do
  let block ← settle body capabilities args
  return ⟨block, ← block.text capabilities args⟩

/-- The boundary around a body's text that replaces whatever is thrown by one error carrying its
description. -/
def errorBoundary (text : String) : String :=
  "try " ++ text ++ " catch (err) \x7b throw new Error(JSON.stringify(err, " ++
    "Object.getOwnPropertyNames(err))); \x7d"

end FieldScript
