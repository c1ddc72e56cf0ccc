import FieldScript.Proofs.Token.Streams
import FieldScript.Render

/-!
# How a tree is laid out

The text of a tree as lexemes with blanks between them, in which nothing depends on scopes any more. This is the
text that rendering makes of a tree whose names are spelled out.
-/

namespace FieldScript

open Token (Lexeme Piece)

/-- A literal as it is written. -/
def Literal.lexeme (lit : Literal) : Lexeme :=
  match lit.value with
  | .number x => .number x lit.raw.toList
  | .string s => .quoted s lit.raw.toList
  | .bool true => ⟨.keyword .trueWord, lit.raw.toList⟩
  | .bool false => ⟨.keyword .falseWord, lit.raw.toList⟩
  | .null => ⟨.keyword .nullWord, lit.raw.toList⟩

/-- Infix operators are marks but for two words. -/
def BinaryOp.lexeme : BinaryOp → Lexeme
  | .isIn => .word "in"
  | .instanceOf => .word "instanceof"
  | .eq => .mark .eq
  | .notEq => .mark .notEq
  | .strictEq => .mark .strictEq
  | .strictNotEq => .mark .strictNotEq
  | .less => .mark .less
  | .greater => .mark .greater
  | .lessEq => .mark .lessEq
  | .greaterEq => .mark .greaterEq
  | .add => .mark .plus
  | .sub => .mark .minus
  | .mul => .mark .star
  | .div => .mark .slash
  | .mod => .mark .percent
  | .exp => .mark .exp
  | .bitAnd => .mark .amp
  | .bitOr => .mark .bar
  | .bitXor => .mark .caret
  | .shl => .mark .shl
  | .shr => .mark .shr
  | .ushr => .mark .ushr

def LogicalOp.lexeme : LogicalOp → Lexeme
  | .and => .mark .and
  | .or => .mark .or
  | .nullish => .mark .nullish

def UnaryOp.lexeme : UnaryOp → Lexeme
  | .not => .mark .bang
  | .neg => .mark .minus
  | .plus => .mark .plus
  | .bitNot => .mark .tilde
  | .typeOf => .word "typeof"
  | .void => .word "void"
  | .delete => .word "delete"

def UpdateOp.lexeme : UpdateOp → Lexeme
  | .increment => .mark .increment
  | .decrement => .mark .decrement

/-- The mark of an assignment. Comparisons cannot be combined with one. -/
def AssignOp.punct? : AssignOp → Option Punct
  | .assign => some .assign
  | .binary .add => some .addAssign
  | .binary .sub => some .subAssign
  | .binary .mul => some .mulAssign
  | .binary .div => some .divAssign
  | .binary .mod => some .modAssign
  | .binary .exp => some .expAssign
  | .binary .bitAnd => some .bitAndAssign
  | .binary .bitOr => some .bitOrAssign
  | .binary .bitXor => some .bitXorAssign
  | .binary .shl => some .shlAssign
  | .binary .shr => some .shrAssign
  | .binary .ushr => some .ushrAssign
  | .logical .and => some .andAssign
  | .logical .or => some .orAssign
  | .logical .nullish => some .nullishAssign
  | _ => none

def AssignOp.lexeme (op : AssignOp) : Lexeme := .mark (op.punct?.getD .assign)

namespace Layout

/-- A word. -/
def word (s : String) : List Piece := [.lexeme (.word s)]

/-- A mark. -/
def mark (p : Punct) : List Piece := [.lexeme (.mark p)]

/-- A blank. -/
def blank : List Piece := [.blank]

/-- Things with a comma between them. -/
def commas : List (List Piece) → List Piece
  | [] => []
  | [ps] => ps
  | ps :: qs :: more => ps ++ (mark .comma ++ (blank ++ commas (qs :: more)))

/-- Things with a blank between them. -/
def spaced : List (List Piece) → List Piece
  | [] => []
  | [ps] => ps
  | ps :: qs :: more => ps ++ (blank ++ spaced (qs :: more))

/-- Something between parentheses. -/
def parens (ps : List Piece) : List Piece := mark .openParen ++ (ps ++ mark .closeParen)

/-- Things between brackets. One that is left out at the end needs a comma of its own. -/
def list (pss : List (List Piece)) (endsWithHole : Bool) : List Piece :=
  mark .openBracket ++ (commas pss ++ ((if endsWithHole then mark .comma else []) ++ mark .closeBracket))

/-- Things between braces and blanks. -/
def braces (ps : List Piece) : List Piece :=
  mark .openBrace ++ (blank ++ (ps ++ (blank ++ mark .closeBrace)))

/-- The pieces of a template with the substitutions between them. -/
def template (head : Bool) : List TemplatePart → List (List Piece) → List Piece
  | [], _ => []
  | part :: _, [] => [.lexeme (.piece head part .closed)]
  | part :: parts, ps :: more => .lexeme (.piece head part .substitution) :: (ps ++ template false parts more)

/-- The mark in front of a link that may be optional. -/
def link (optional : Bool) (p : Punct) : List Piece := (if optional then mark .optionalDot else []) ++ mark p

/-- Operands of accesses and calls: an `await` needs parentheses there. -/
def operand (e : Expr) (ps : List Piece) : List Piece :=
  match e with
  | .await .. => parens ps
  | _ => ps

mutual

/-- The layout of an expression. -/
def expr : Expr → List Piece
  | .literal lit _ => [.lexeme lit.lexeme]
  | .template parts es _ => template true parts (exprs es)
  | .array es _ => list (items es) (es.getLast?.any Render.Item.isHole)
  | .object ps _ => parens (braces (commas (properties ps)))
  | .identifier name _ => word name
  | .member o k optional _ => operand o (expr o) ++ access optional k
  | .call callee args optional _ =>
    operand callee (expr callee) ++ (link optional .openParen ++ (commas (items args) ++ mark .closeParen))
  | .arrow ps body isAsync _ =>
    parens ((if isAsync then word "async" ++ blank else []) ++ (parens (commas (patterns ps)) ++
      (blank ++ (mark .arrow ++ (blank ++ arrowBody body)))))
  | .function _ => []
  | .this _ => word "this"
  | .await e _ => word "await" ++ (blank ++ expr e)
  | .unary op e _ => parens (.lexeme op.lexeme :: ((if op.isWord then blank else []) ++ expr e))
  | .update op before target _ =>
    parens ((if before then [Piece.lexeme op.lexeme] else []) ++ (pattern target ++
      (if before then [] else [Piece.lexeme op.lexeme])))
  | .binary op l r _ => parens (expr l ++ (blank ++ (.lexeme op.lexeme :: (blank ++ expr r))))
  | .logical op l r _ => parens (expr l ++ (blank ++ (.lexeme op.lexeme :: (blank ++ expr r))))
  | .conditional test yes no _ =>
    parens (parens (expr test) ++ (blank ++ (mark .question ++ (blank ++ (parens (expr yes) ++ (blank ++
      (mark .colon ++ (blank ++ parens (expr no)))))))))
  | .assign op target e _ => parens (pattern target ++ (blank ++ (.lexeme op.lexeme :: (blank ++ expr e))))
  | .sequence es _ => parens (commas (exprs es))

/-- The layout of expressions. -/
def exprs : List Expr → List (List Piece)
  | [] => []
  | e :: more => expr e :: exprs more

/-- The layout of elements or arguments. -/
def items : List Item → List (List Piece)
  | [] => []
  | .expr e :: more => expr e :: items more
  | .spread e :: more => (mark .ellipsis ++ expr e) :: items more
  | .hole :: more => [] :: items more

/-- The layout of an access to a member. -/
def access (optional : Bool) : Key → List Piece
  | .name id => mark (if optional then .optionalDot else .dot) ++ word id.name
  | .literal lit => link optional .openBracket ++ (.lexeme lit.lexeme :: mark .closeBracket)
  | .computed e => link optional .openBracket ++ (expr e ++ mark .closeBracket)

/-- The layout of a key in front of a colon. -/
def key : Key → List Piece
  | .name id => word id.name
  | .literal lit => [.lexeme lit.lexeme]
  | .computed e => mark .openBracket ++ (expr e ++ mark .closeBracket)

/-- The layout of the entries of an object. -/
def properties : List Property → List (List Piece)
  | [] => []
  | .init k e shorthand _ :: more =>
    ((if shorthand then [] else key k ++ (mark .colon ++ blank)) ++ expr e) :: properties more
  | .spread e :: more => (mark .ellipsis ++ parens (expr e)) :: properties more

/-- The layout of the body of an arrow function. -/
def arrowBody : ArrowBody → List Piece
  | .expr e => expr e
  | .block b => block b

/-- The layout of a pattern. -/
def pattern : Pattern → List Piece
  | .ident id => word id.name
  | .array elements _ => list (patterns elements) (elements.getLast?.any Render.Pattern.isHole)
  | .object props _ => braces (commas (patternProps props))
  | .assign target default => pattern target ++ (blank ++ (mark .assign ++ (blank ++ expr default)))
  | .rest target => mark .ellipsis ++ pattern target
  | .member e => expr e
  | .hole => []

/-- The layout of the elements of an array pattern or of parameters. -/
def patterns : List Pattern → List (List Piece)
  | [] => []
  | p :: more => pattern p :: patterns more

/-- The layout of the entries of an object pattern. -/
def patternProps : List PatternProp → List (List Piece)
  | [] => []
  | .init k target shorthand :: more =>
    ((if shorthand then [] else key k ++ (mark .colon ++ blank)) ++ pattern target) :: patternProps more
  | .rest target :: more => (mark .ellipsis ++ pattern target) :: patternProps more

/-- The layout of statements between braces. -/
def block : Block → List Piece
  | .mk stmts _ => braces (spaced (statements stmts))

/-- The layout of statements. -/
def statements : List Stmt → List (List Piece)
  | [] => []
  | s :: more => statement s :: statements more

/-- The layout of a statement. -/
def statement : Stmt → List Piece
  | .expr e _ => expr e ++ mark .semicolon
  | .declare d _ => varDecl d ++ mark .semicolon
  | .return none _ => word "return" ++ mark .semicolon
  | .return (some e) _ => word "return" ++ (blank ++ (expr e ++ mark .semicolon))
  | .cond test yes none _ => word "if" ++ (blank ++ (parens (expr test) ++ (blank ++ statement yes)))
  | .cond test yes (some no) _ =>
    word "if" ++ (blank ++ (parens (expr test) ++ (blank ++ (statement yes ++ (blank ++ (word "else" ++
      (blank ++ statement no)))))))
  | .while test body _ => word "while" ++ (blank ++ (parens (expr test) ++ (blank ++ statement body)))
  | .doWhile body test _ =>
    word "do" ++ (blank ++ (statement body ++ (blank ++ (word "while" ++ (blank ++ (parens (expr test) ++
      mark .semicolon))))))
  | .for init test update body _ =>
    word "for" ++ (blank ++ (parens (forInit init ++ (mark .semicolon ++ (blank ++ (optional test ++
      (mark .semicolon ++ (blank ++ optional update)))))) ++ (blank ++ statement body)))
  | .block b => block b
  | .break _ => word "break" ++ mark .semicolon
  | .continue _ => word "continue" ++ mark .semicolon
  | .debugger _ => word "debugger" ++ mark .semicolon
  | .empty _ => mark .semicolon
  | .function _ => []

/-- The layout of an expression that may be left out. -/
def optional : Option Expr → List Piece
  | none => []
  | some e => expr e

/-- The layout of the first clause of a `for` statement. -/
def forInit : ForInit → List Piece
  | .absent => []
  | .declare d => varDecl d
  | .expr e => expr e

/-- The layout of a declaration without a semicolon. -/
def varDecl : VarDecl → List Piece
  | .mk kind ds _ => word kind.text ++ (blank ++ commas (declarators ds))

/-- The layout of declarators. -/
def declarators : List Declarator → List (List Piece)
  | [] => []
  | .mk target init _ :: more => (pattern target ++ initial init) :: declarators more

/-- The layout of an initial value. -/
def initial : Option Expr → List Piece
  | none => []
  | some e => blank ++ (mark .assign ++ (blank ++ expr e))

end

/-! ## Lists of layouts

Each of them is the list of the layouts of its members. -/

theorem exprs_eq (es : List Expr) : exprs es = es.map expr := by
  induction es with
  | nil => rfl
  | cons e more ih => rw [exprs, ih, List.map_cons]

theorem length_exprs (es : List Expr) : (exprs es).length = es.length := by
  rw [exprs_eq, List.length_map]

/-- The layout of an element or argument. -/
def item : Item → List Piece
  | .expr e => expr e
  | .spread e => mark .ellipsis ++ expr e
  | .hole => []

theorem items_eq (es : List Item) : items es = es.map item := by
  induction es with
  | nil => rfl
  | cons e more ih => cases e <;> rw [items, ih] <;> rfl

/-- The layout of an entry of an object. -/
def property : Property → List Piece
  | .init k e shorthand _ => (if shorthand then [] else key k ++ (mark .colon ++ blank)) ++ expr e
  | .spread e => mark .ellipsis ++ parens (expr e)

theorem properties_eq (ps : List Property) : properties ps = ps.map property := by
  induction ps with
  | nil => rfl
  | cons p more ih => cases p <;> rw [properties, ih] <;> rfl

theorem patterns_eq (ps : List Pattern) : patterns ps = ps.map pattern := by
  induction ps with
  | nil => rfl
  | cons p more ih => rw [patterns, ih, List.map_cons]

/-- The layout of an entry of an object pattern. -/
def patternProp : PatternProp → List Piece
  | .init k target shorthand => (if shorthand then [] else key k ++ (mark .colon ++ blank)) ++ pattern target
  | .rest target => mark .ellipsis ++ pattern target

theorem patternProps_eq (ps : List PatternProp) : patternProps ps = ps.map patternProp := by
  induction ps with
  | nil => rfl
  | cons p more ih => cases p <;> rw [patternProps, ih] <;> rfl

theorem statements_eq (ss : List Stmt) : statements ss = ss.map statement := by
  induction ss with
  | nil => rfl
  | cons s more ih => rw [statements, ih, List.map_cons]

/-- The layout of a declarator. -/
def declarator : Declarator → List Piece
  | .mk target init _ => pattern target ++ initial init

theorem declarators_eq (ds : List Declarator) : declarators ds = ds.map declarator := by
  induction ds with
  | nil => rfl
  | cons d more ih =>
      obtain ⟨target, init, span⟩ := d
      rw [declarators, ih]
      rfl

/-! ## The lexemes of parts -/

open Token.Piece (lexemes)

@[simp] theorem lexemes_word (s : String) : lexemes (word s) = [.word s] := rfl

@[simp] theorem lexemes_mark (p : Punct) : lexemes (mark p) = [.mark p] := rfl

@[simp] theorem lexemes_blank : lexemes blank = [] := rfl

@[simp] theorem lexemes_cons (l : Lexeme) (ps : List Piece) : lexemes (.lexeme l :: ps) = l :: lexemes ps := rfl

@[simp] theorem lexemes_nil : lexemes [] = [] := rfl

@[simp] theorem lexemes_parens (ps : List Piece) :
    lexemes (parens ps) = Lexeme.mark .openParen :: (lexemes ps ++ [Lexeme.mark .closeParen]) := by
  simp [parens]

@[simp] theorem lexemes_braces (ps : List Piece) :
    lexemes (braces ps) = Lexeme.mark .openBrace :: (lexemes ps ++ [Lexeme.mark .closeBrace]) := by
  simp [braces]

theorem lexemes_call (callee : Expr) (args : List Item) (optional : Bool) (span : Span) :
    lexemes (expr (.call callee args optional span)) =
      lexemes (operand callee (expr callee)) ++ ((if optional then [Lexeme.mark .optionalDot] else []) ++
        (Lexeme.mark .openParen :: (lexemes (commas (items args)) ++ [Lexeme.mark .closeParen]))) := by
  cases optional <;> simp [expr, link]

theorem lexemes_exprStatement (e : Expr) (span : Span) :
    lexemes (statement (.expr e span)) = lexemes (expr e) ++ [Lexeme.mark .semicolon] := by
  simp [statement]

end Layout
end FieldScript
