import FieldScript.Syntax.Basic
import FieldScript.Decimal.Layout

/-!
# Tokens of field bodies

The words and marks that expressions are written with. A token carries its own text, so that later
stages do not have to look at the source again.
-/

namespace FieldScript

/-- Words with a meaning of their own. -/
inductive Keyword where
  | constWord
  | letWord
  | varWord
  | ifWord
  | elseWord
  | whileWord
  | doWord
  | forWord
  | returnWord
  | breakWord
  | continueWord
  | debuggerWord
  | functionWord
  | thisWord
  | awaitWord
  | asyncWord
  | deleteWord
  | typeofWord
  | voidWord
  | inWord
  | instanceofWord
  | trueWord
  | falseWord
  | nullWord
deriving DecidableEq, Repr

namespace Keyword

/-- The written form of a keyword. -/
def text : Keyword → String
  | .constWord => "const"
  | .letWord => "let"
  | .varWord => "var"
  | .ifWord => "if"
  | .elseWord => "else"
  | .whileWord => "while"
  | .doWord => "do"
  | .forWord => "for"
  | .returnWord => "return"
  | .breakWord => "break"
  | .continueWord => "continue"
  | .debuggerWord => "debugger"
  | .functionWord => "function"
  | .thisWord => "this"
  | .awaitWord => "await"
  | .asyncWord => "async"
  | .deleteWord => "delete"
  | .typeofWord => "typeof"
  | .voidWord => "void"
  | .inWord => "in"
  | .instanceofWord => "instanceof"
  | .trueWord => "true"
  | .falseWord => "false"
  | .nullWord => "null"

/-- Every keyword. -/
def all : List Keyword :=
    [.constWord, .letWord, .varWord, .ifWord, .elseWord, .whileWord, .doWord, .forWord,
    .returnWord, .breakWord, .continueWord, .debuggerWord, .functionWord, .thisWord, .awaitWord,
    .asyncWord, .deleteWord, .typeofWord, .voidWord, .inWord, .instanceofWord, .trueWord,
    .falseWord, .nullWord]

/-- The keyword that a word spells. -/
def ofWord? (word : String) : Option Keyword :=
  all.find? (·.text == word)

end Keyword

/-- Operators and brackets. -/
inductive Punct where
  | ushrAssign
  | ellipsis
  | strictEq
  | strictNotEq
  | expAssign
  | shlAssign
  | shrAssign
  | ushr
  | andAssign
  | orAssign
  | nullishAssign
  | arrow
  | eq
  | notEq
  | lessEq
  | greaterEq
  | and
  | or
  | nullish
  | optionalDot
  | increment
  | decrement
  | addAssign
  | subAssign
  | mulAssign
  | divAssign
  | modAssign
  | bitAndAssign
  | bitOrAssign
  | bitXorAssign
  | exp
  | shl
  | shr
  | openBrace
  | closeBrace
  | openParen
  | closeParen
  | openBracket
  | closeBracket
  | semicolon
  | comma
  | less
  | greater
  | plus
  | minus
  | star
  | slash
  | percent
  | amp
  | bar
  | caret
  | bang
  | tilde
  | question
  | colon
  | assign
  | dot
deriving DecidableEq, Repr

namespace Punct

/-- The written form of a mark. -/
def text : Punct → String
  | .ushrAssign => ">>>="
  | .ellipsis => "..."
  | .strictEq => "==="
  | .strictNotEq => "!=="
  | .expAssign => "**="
  | .shlAssign => "<<="
  | .shrAssign => ">>="
  | .ushr => ">>>"
  | .andAssign => "&&="
  | .orAssign => "||="
  | .nullishAssign => "??="
  | .arrow => "=>"
  | .eq => "=="
  | .notEq => "!="
  | .lessEq => "<="
  | .greaterEq => ">="
  | .and => "&&"
  | .or => "||"
  | .nullish => "??"
  | .optionalDot => "?."
  | .increment => "++"
  | .decrement => "--"
  | .addAssign => "+="
  | .subAssign => "-="
  | .mulAssign => "*="
  | .divAssign => "/="
  | .modAssign => "%="
  | .bitAndAssign => "&="
  | .bitOrAssign => "|="
  | .bitXorAssign => "^="
  | .exp => "**"
  | .shl => "<<"
  | .shr => ">>"
  | .openBrace => "\x7b"
  | .closeBrace => "\x7d"
  | .openParen => "("
  | .closeParen => ")"
  | .openBracket => "["
  | .closeBracket => "]"
  | .semicolon => ";"
  | .comma => ","
  | .less => "<"
  | .greater => ">"
  | .plus => "+"
  | .minus => "-"
  | .star => "*"
  | .slash => "/"
  | .percent => "%"
  | .amp => "&"
  | .bar => "|"
  | .caret => "^"
  | .bang => "!"
  | .tilde => "~"
  | .question => "?"
  | .colon => ":"
  | .assign => "="
  | .dot => "."

/-- Every mark, longer ones first, so that the first one that fits is the longest. -/
def all : List Punct :=
    [.ushrAssign, .ellipsis, .strictEq, .strictNotEq, .expAssign, .shlAssign, .shrAssign, .ushr,
    .andAssign, .orAssign, .nullishAssign, .arrow, .eq, .notEq, .lessEq, .greaterEq, .and, .or,
    .nullish, .optionalDot, .increment, .decrement, .addAssign, .subAssign, .mulAssign,
    .divAssign, .modAssign, .bitAndAssign, .bitOrAssign, .bitXorAssign, .exp, .shl, .shr,
    .openBrace, .closeBrace, .openParen, .closeParen, .openBracket, .closeBracket, .semicolon,
    .comma, .less, .greater, .plus, .minus, .star, .slash, .percent, .amp, .bar, .caret, .bang,
    .tilde, .question, .colon, .assign, .dot]

end Punct

/-- Words that the language of field bodies sets aside without giving them a meaning. -/
def reservedWords : List String :=
    ["new", "class", "switch", "case", "default", "try", "catch", "finally", "throw", "yield",
    "import", "export", "extends", "super", "with", "of"]

namespace Token

/-- What a token is. -/
inductive Kind where
  | number (x : Float)
  /-- A quoted text with its escapes resolved. -/
  | string (s : String)
  /-- A template without substitutions. -/
  | template (part : TemplatePart)
  /-- A template up to its first substitution. -/
  | templateHead (part : TemplatePart)
  /-- The text between two substitutions. -/
  | templateMiddle (part : TemplatePart)
  /-- The text after the last substitution. -/
  | templateTail (part : TemplatePart)
  | identifier (name : String)
  | keyword (word : Keyword)
  | reserved (word : String)
  | punct (mark : Punct)
  | eof
deriving Repr, Inhabited

/-- Numbers inside messages. -/
def numberLayout : Decimal.Layout where
  positional _ := true
  wholeFraction := false
  tie := .up
  signedZero := true
  nan := "NaN"
  infinity := "inf"

/-- How messages refer to a token. -/
def Kind.describe : Kind → String
  | .number x => "number " ++ numberLayout.render x
  | .string _ => "string"
  | .template _ | .templateHead _ | .templateMiddle _ | .templateTail _ => "template"
  | .identifier name => "'" ++ name ++ "'"
  | .keyword word => "'" ++ word.text ++ "'"
  | .reserved word => "'" ++ word ++ "'"
  | .punct mark => "'" ++ mark.text ++ "'"
  | .eof => "end of input"

end Token

/-- A token of a field body. -/
structure Token where
  kind : Token.Kind
  span : Span
  /-- Whether a line ends between the token before and this one. -/
  newlineBefore : Bool
  /-- The text of the token as written. -/
  text : String
deriving Repr, Inhabited

namespace Token

def isPunct (t : Token) (mark : Punct) : Bool :=
  match t.kind with
  | .punct m => m == mark
  | _ => false

def isKeyword (t : Token) (word : Keyword) : Bool :=
  match t.kind with
  | .keyword w => w == word
  | _ => false

def isEof (t : Token) : Bool :=
  match t.kind with
  | .eof => true
  | _ => false

end Token
end FieldScript
