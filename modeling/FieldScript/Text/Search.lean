/-!
# Searching and replacing

Occurrences of one text in another, counted in characters. The empty text occurs everywhere.
-/

namespace FieldScript.Text

/-- Where a text first occurs. -/
def indexOf? (needle : List Char) : List Char → Option Nat
  | [] => if needle.isEmpty then some 0 else none
  | c :: rest =>
    if needle.isPrefixOf (c :: rest) then some 0 else (indexOf? needle rest).map (· + 1)

/-- Where a text last occurs. -/
def lastIndexOf? (needle : List Char) : List Char → Option Nat
  | [] => if needle.isEmpty then some 0 else none
  | c :: rest =>
    match lastIndexOf? needle rest with
    | some i => some (i + 1)
    | none => if needle.isPrefixOf (c :: rest) then some 0 else none

/-- The pieces between the occurrences of a text that is not empty. `skip` characters of the
occurrence at hand are still to be passed, and `piece` is the piece at hand in reverse. -/
def splitFrom (separator : List Char) (skip : Nat) (piece : List Char) :
    List Char → List (List Char)
  | [] => [piece.reverse]
  | c :: rest =>
    if 0 < skip then splitFrom separator (skip - 1) piece rest
    else if separator.isPrefixOf (c :: rest) then
      piece.reverse :: splitFrom separator (separator.length - 1) [] rest
    else splitFrom separator 0 (c :: piece) rest

/-- The pieces between the occurrences of a separator. An empty separator divides all characters. -/
def split (separator text : List Char) : List (List Char) :=
  if separator.isEmpty then text.map ([·]) else splitFrom separator 0 [] text

/-- Replaces the first occurrence of a text. -/
def replaceFirst (old new text : List Char) : List Char :=
  match indexOf? old text with
  | some i => text.take i ++ new ++ text.drop (i + old.length)
  | none => text

/-- Replaces every occurrence of a text. The empty text occurs in front of every character and at
the end. -/
def replaceAll (old new text : List Char) : List Char :=
  if old.isEmpty then new ++ text.flatMap fun c => c :: new
  else new.intercalate (splitFrom old 0 [] text)

end FieldScript.Text
