import FieldScript.Syntax.Parse.Basic

/-!
# Parsing: patterns

Patterns of declarations and parameters are read as such. The target of an assignment is read as an
expression, because it is known to be a target only once the operator behind it is seen, and then
turned into a pattern.
-/

namespace FieldScript.Parse

/-- The key of an entry: a word, a text, a number, or an expression in brackets. -/
def key (g : Grammar) : Parser Key := do
  let t ← peek
  match t.kind with
  | .punct .openBracket =>
    let _ ← advance
    let e ← g.assignment
    let _ ← expectPunct .closeBracket
    return .computed e
  | .string s =>
    let _ ← advance
    return .literal ⟨.string s, t.text⟩
  | .number x =>
    let _ ← advance
    return .literal ⟨.number x, t.text⟩
  | _ => return .name (← propertyName)

/-- A target with an optional default. -/
def bindingElement (g : Grammar) : Parser Pattern := do
  let target ← g.bindingTarget
  if ← eatPunct .assign then return .assign target (← g.assignment) else return target

/-- An element of an array pattern or a parameter: three points mark the one that takes the rest. -/
def bindingOrRest (g : Grammar) : Parser Pattern := do
  if ← eatPunct .ellipsis then return .rest (← g.bindingTarget) else bindingElement g

/-- An entry of an object pattern. -/
def patternProp (g : Grammar) : Parser PatternProp := do
  if ← eatPunct .ellipsis then return .rest (.ident (← bindingName))
  else
    let t ← peek
    let k ← key g
    if ← eatPunct .colon then return .init k (← bindingElement g) false
    else
      match k, t.kind with
      | .name id, .identifier _ =>
        if ← eatPunct .assign then
          return .init k (.assign (.ident id) (← g.assignment)) true
        else return .init k (.ident id) true
      | .name _, kind => fail (.unexpectedInPattern kind) t.span
      | _, _ => fail .keyWithoutValue t.span

/-- A name, an array pattern or an object pattern. -/
def bindingTarget (g : Grammar) : Parser Pattern := do
  let t ← peek
  match t.kind with
  | .punct .openBracket =>
    let _ ← advance
    let elements ← separatedWithHoles .closeBracket .hole (bindingOrRest g) (← bound)
    let close ← expectPunct .closeBracket
    return .array elements (t.span.merge close.span)
  | .punct .openBrace =>
    let _ ← advance
    let props ← separated .closeBrace (patternProp g) (← bound)
    let close ← expectPunct .closeBrace
    return .object props (t.span.merge close.span)
  | _ => return .ident (← bindingName)

/-- Parameters between parentheses, of which the opening one is consumed. -/
def params (g : Grammar) : Parser (List Pattern) := do
  let ps ← separated .closeParen (bindingOrRest g) (← bound)
  let _ ← expectPunct .closeParen
  return ps

/-- The outcome of reading an expression as a target. -/
abbrev Target (α : Type) := Except SyntaxFault α

mutual

/-- Reads an expression as the target of a plain assignment. -/
def toPattern : Expr → Target Pattern
  | .identifier name span => .ok (.ident ⟨name, span⟩)
  | .member object key false span => .ok (.member (.member object key false span))
  | .array items span => (itemsToPatterns items).map (.array · span)
  | .object props span => (propsToPatterns props).map (.object · span)
  | e => .error ⟨.invalidTarget, e.span⟩

/-- Reads an expression as a part of a target, where an assignment stands for a default. -/
def toElement : Expr → Target Pattern
  | .assign .assign target value _ => .ok (.assign target value)
  | .identifier name span => .ok (.ident ⟨name, span⟩)
  | .member object key false span => .ok (.member (.member object key false span))
  | .array items span => (itemsToPatterns items).map (.array · span)
  | .object props span => (propsToPatterns props).map (.object · span)
  | e => .error ⟨.invalidTarget, e.span⟩

/-- Reads the elements of an array as parts of a target. -/
def itemsToPatterns : List Item → Target (List Pattern)
  | [] => .ok []
  | .hole :: more => do
    return .hole :: (← itemsToPatterns more)
  | .spread e :: more => do
    let p ← toPattern e
    return .rest p :: (← itemsToPatterns more)
  | .expr e :: more => do
    let p ← toElement e
    return p :: (← itemsToPatterns more)

/-- Reads the entries of an object as parts of a target. -/
def propsToPatterns : List Property → Target (List PatternProp)
  | [] => .ok []
  | .spread e :: more => do
    let p ← toPattern e
    return .rest p :: (← propsToPatterns more)
  | .init key value shorthand _ :: more => do
    let p ← toElement value
    return .init key p shorthand :: (← propsToPatterns more)

end

/-- Reads an expression as a target that is read before it is written: a name or a member. -/
def toSimpleTarget : Expr → Target Pattern
  | .identifier name span => .ok (.ident ⟨name, span⟩)
  | .member object key false span => .ok (.member (.member object key false span))
  | e => .error ⟨.invalidTarget, e.span⟩

end FieldScript.Parse
