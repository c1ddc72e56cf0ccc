import FieldScript.Host.Api
import FieldScript.Json.Printer

/-!
# Scripted functions

External functions whose answers are laid down beforehand.
-/

namespace FieldScript

/-- What a scripted function answers. -/
inductive Script where
  /-- The first argument. -/
  | echo
  /-- All arguments. -/
  | args
  | constant (value : Json)
  | fail (value : Json)
  /-- The number of earlier calls. -/
  | count
  /-- A result or else a rejection by a key that the first argument gives, or else a default. -/
  | table (results errors : List (String × Json)) (default : Json)

namespace Script

/-- The key of the first argument: a text as it is, and the text of anything else. -/
def key (args : List Json) : String :=
  match args.head? with
  | some (.string s) => s
  | some j => j.render
  | none => "null"

/-- The answer to a call. -/
def result (script : Script) (earlier : Nat) (args : List Json) : Except Json Json :=
  match script with
  | .echo => .ok (args.head?.getD .null)
  | .args => .ok (.array args)
  | .constant value => .ok value
  | .fail value => .error value
  | .count => .ok (.int earlier)
  | .table results errors default =>
    match results.lookup (key args), errors.lookup (key args) with
    | some value, _ => .ok value
    | none, some value => .error value
    | none, none => .ok default

/-- The external function that follows a script, with the same delay for all calls. -/
def toFunction (script : Script) (isAsync : Bool) (delay : Nat) : HostFunction where
  isAsync := isAsync
  respond earlier args := ⟨script.result earlier args, delay⟩

end Script
end FieldScript
