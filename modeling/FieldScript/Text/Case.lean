import FieldScript.Text.Class
import FieldScript.Text.Table.Case

/-!
# Upper and lower case

Case mapping of whole texts. A letter may become several characters, and a capital sigma becomes
the final form of the small letter at the end of a word.
-/

namespace FieldScript.Text

/-- The single-character image of a code point in a table of runs, itself if no run moves it. -/
def shift (runs : Array (Nat × Nat × Nat × Nat)) (code : Nat) : Nat :=
  match runs.find? fun (first, last, stride, _) =>
      first ≤ code && code ≤ last && (code - first) % stride == 0 with
  | some (first, _, _, image) => image + (code - first)
  | none => code

/-- The image of a character, from its expansion if it has one and from the runs otherwise. -/
def caseImage (expansions : List (Nat × List Nat)) (runs : Array (Nat × Nat × Nat × Nat))
    (c : Char) : List Char :=
  match expansions.lookup c.toNat with
  | some image => image.map Char.ofNat
  | none => [Char.ofNat (shift runs c.toNat)]

/-- The upper-case form of a character. -/
def upperChar (c : Char) : List Char :=
  if c.toNat < 0x80 then [c.toUpper] else caseImage Table.upperExpansions Table.upperRuns c

/-- The lower-case form of a character by itself. -/
def lowerChar (c : Char) : List Char :=
  if c.toNat < 0x80 then [c.toLower] else caseImage Table.lowerExpansions Table.lowerRuns c

/-- Whether the first character that case mapping does not skip is a cased letter. -/
def meetsCased (text : List Char) : Bool :=
  match text.dropWhile fun c => inBlocks Table.caseIgnorable c.toNat with
  | c :: _ => inBlocks Table.cased c.toNat
  | [] => false

/-- The upper-case form of a text. -/
def toUpper (text : List Char) : List Char :=
  text.flatMap upperChar

/-- Lower case, given what stands in front of the text in reverse. -/
def toLowerAfter (before : List Char) : List Char → List Char
  | [] => []
  | c :: rest =>
    let image :=
      if c = 'Σ' then
        if meetsCased before && !meetsCased rest then ['ς'] else ['σ']
      else lowerChar c
    image ++ toLowerAfter (c :: before) rest

/-- The lower-case form of a text. -/
def toLower (text : List Char) : List Char :=
  toLowerAfter [] text

end FieldScript.Text
