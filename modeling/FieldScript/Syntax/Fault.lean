import FieldScript.Token.Basic
import FieldScript.Diagnostic

/-!
# Faults of field bodies

Why a text is no field body, whether the fault shows in a single token or in their order.
-/

namespace FieldScript

/-- Why a text is no field body. -/
inductive SyntaxFault.Cause where
  | unterminatedComment
  | unexpectedCharacter (c : Char)
  | invalidNumber
  | wordAfterNumber
  | unterminatedString
  | unterminatedTemplate
  | endInEscape
  | invalidUnicodeEscape
  | invalidHexEscape
  | unexpected (found : Token.Kind)
  | unsupportedWord (word : String)
  | expected (mark : Punct) (found : Token.Kind)
  | taggedTemplate
  | unclosedSubstitution (found : Token.Kind)
  | objectMethod
  | keyWithoutValue
  | unexpectedInPattern (found : Token.Kind)
  | invalidTarget
  | unsupportedLoop
  /-- The recursion bound was too small. It is chosen so that this does not happen. -/
  | exhausted
deriving Inhabited

/-- A cause and the place where it shows. -/
structure SyntaxFault where
  cause : SyntaxFault.Cause
  span : Span
deriving Inhabited

namespace SyntaxFault

/-- The wording of a cause. -/
def Cause.message : Cause → String
  | .unterminatedComment => "Unterminated comment"
  | .unexpectedCharacter c => "Unexpected character '" ++ c.toString ++ "'"
  | .invalidNumber => "Invalid number literal"
  | .wordAfterNumber => "Identifier directly after number"
  | .unterminatedString => "Unterminated string literal"
  | .unterminatedTemplate => "Unterminated template literal"
  | .endInEscape => "Unexpected end of input in escape sequence"
  | .invalidUnicodeEscape => "Invalid Unicode escape sequence"
  | .invalidHexEscape => "Invalid hexadecimal escape sequence"
  | .unexpected found => "Unexpected token " ++ found.describe
  | .unsupportedWord word => "Unsupported syntax: '" ++ word ++ "' is not allowed"
  | .expected mark found => "Expected '" ++ mark.text ++ "', but found " ++ found.describe
  | .taggedTemplate => "Tagged templates are not supported"
  | .unclosedSubstitution found =>
    "Expected '\x7d' to close template substitution, but found " ++ found.describe
  | .objectMethod => "Object methods are not supported. Use arrow functions (\"=>\") instead."
  | .keyWithoutValue => "Expected ':' after computed key"
  | .unexpectedInPattern found => "Unexpected token " ++ found.describe ++ " in binding pattern"
  | .invalidTarget => "Invalid assignment target"
  | .unsupportedLoop => "Unsupported syntax: only 'for (init; test; update)' loops are allowed"
  | .exhausted => "recursion bound exhausted"

/-- The diagnostic of a fault in a source. -/
def toDiagnostic (f : SyntaxFault) (source : Source) : Diagnostic :=
  match f.cause with
  | .exhausted => .internal f.cause.message
  | cause => .inComposite .expressionSyntax cause.message (source.location f.span)

end SyntaxFault
end FieldScript
