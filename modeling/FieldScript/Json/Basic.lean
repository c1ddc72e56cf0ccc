/-!
# Documents

The data that crosses the boundary between field bodies and the outside. Members of an object keep
the order in which they were written. Whole numbers are told apart from numbers with a fraction
because their texts differ.
-/

namespace FieldScript

/-- A data document. -/
inductive Json where
  | null
  | bool (b : Bool)
  | int (n : Int)
  | float (x : Float)
  | string (s : String)
  | array (items : List Json)
  | object (members : List (String × Json))
deriving Inhabited

namespace Json

/-- The document of a computed number: a whole number below `2 ^ 53` in magnitude is written as one,
and what is not finite is null. -/
def ofFloat (x : Float) : Json :=
  if x.isNaN || x.isInf then .null
  else if x.floor == x && x.abs < 9007199254740992.0 then
    let magnitude : Int := x.abs.toUInt64.toNat
    .int (if x < 0 then -magnitude else magnitude)
  else .float x

/-- The value of the member of a name. -/
def get? (j : Json) (name : String) : Option Json :=
  match j with
  | .object members => members.lookup name
  | _ => none

end Json
end FieldScript
