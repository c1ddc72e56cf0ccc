/-!
# Operators of field bodies

Each family of operators with its written form.
-/

namespace FieldScript

/-- Operators that evaluate both operands. -/
inductive BinaryOp where
  | eq
  | notEq
  | strictEq
  | strictNotEq
  | less
  | greater
  | lessEq
  | greaterEq
  | add
  | sub
  | mul
  | div
  | mod
  | exp
  | isIn
  | instanceOf
  | bitAnd
  | bitOr
  | bitXor
  | shl
  | shr
  | ushr
deriving DecidableEq, Repr

/-- The written form of an operator. -/
def BinaryOp.text : BinaryOp → String
  | .eq => "=="
  | .notEq => "!="
  | .strictEq => "==="
  | .strictNotEq => "!=="
  | .less => "<"
  | .greater => ">"
  | .lessEq => "<="
  | .greaterEq => ">="
  | .add => "+"
  | .sub => "-"
  | .mul => "*"
  | .div => "/"
  | .mod => "%"
  | .exp => "**"
  | .isIn => "in"
  | .instanceOf => "instanceof"
  | .bitAnd => "&"
  | .bitOr => "|"
  | .bitXor => "^"
  | .shl => "<<"
  | .shr => ">>"
  | .ushr => ">>>"

/-- Operators that may leave their right operand unevaluated. -/
inductive LogicalOp where
  | and
  | or
  | nullish
deriving DecidableEq, Repr

/-- The written form of an operator. -/
def LogicalOp.text : LogicalOp → String
  | .and => "&&"
  | .or => "||"
  | .nullish => "??"

/-- Operators with one operand. -/
inductive UnaryOp where
  | not
  | neg
  | plus
  | bitNot
  | typeOf
  | void
  | delete
deriving DecidableEq, Repr

/-- The written form of an operator. -/
def UnaryOp.text : UnaryOp → String
  | .not => "!"
  | .neg => "-"
  | .plus => "+"
  | .bitNot => "~"
  | .typeOf => "typeof"
  | .void => "void"
  | .delete => "delete"

/-- Whether an operator is a word, which a space has to divide from its operand. -/
def UnaryOp.isWord : UnaryOp → Bool
  | .typeOf | .void | .delete => true
  | _ => false

/-- Operators that step a variable. -/
inductive UpdateOp where
  | increment
  | decrement
deriving DecidableEq, Repr

/-- The written form of an operator. -/
def UpdateOp.text : UpdateOp → String
  | .increment => "++"
  | .decrement => "--"

/-- Plain and compound assignment. -/
inductive AssignOp where
  | assign
  | binary (op : BinaryOp)
  | logical (op : LogicalOp)
deriving DecidableEq, Repr

/-- The written form of an operator. -/
def AssignOp.text : AssignOp → String
  | .assign => "="
  | .binary op => op.text ++ "="
  | .logical op => op.text ++ "="

end FieldScript
