import FieldScript.Text.Table.Class

/-!
# Character classes

Classes of Unicode scalar values that decide where words end, what counts as blank and which
characters a quoted text spells out. Each class agrees with core's class of the same kind on ASCII.
-/

namespace FieldScript.Text

/-- Whether a code point lies in one of the blocks of a table. -/
def inBlocks (table : Array (Nat × Nat)) (code : Nat) : Bool :=
  table.any fun block => block.1 ≤ code && code ≤ block.2

/-- Letters: the Unicode property Alphabetic. -/
def isLetter (c : Char) : Bool :=
  if c.toNat < 0x80 then c.isAlpha else inBlocks Table.alphabetic c.toNat

/-- Numbers of every script: the general categories Nd, Nl and No. -/
def isNumber (c : Char) : Bool :=
  if c.toNat < 0x80 then c.isDigit else inBlocks Table.numeric c.toNat

/-- Letters and numbers. -/
def isLetterOrNumber (c : Char) : Bool :=
  isLetter c || isNumber c

/-- The Unicode property White_Space. -/
def isBlank (c : Char) : Bool :=
  let n := c.toNat
  (9 ≤ n && n ≤ 13) || n == 0x20 || n == 0x85 || n == 0xA0 || n == 0x1680 ||
    (0x2000 ≤ n && n ≤ 0x200A) || n == 0x2028 || n == 0x2029 || n == 0x202F || n == 0x205F ||
    n == 0x3000

/-- Characters that attach to the one in front of them. -/
def isExtending (c : Char) : Bool :=
  0x80 ≤ c.toNat && inBlocks Table.extending c.toNat

/-- Characters that have a glyph of their own. -/
def isPrintable (c : Char) : Bool :=
  if c.toNat < 0x80 then 0x20 ≤ c.toNat && c.toNat < 0x7F
  else !inBlocks Table.unprintable c.toNat

/-- A decimal digit of ASCII. -/
def isDigit (c : Char) : Bool :=
  '0' ≤ c && c ≤ '9'

/-- The value of an ASCII digit or letter as a digit, letters counting on from ten. -/
def digitValue (c : Char) : Nat :=
  if '0' ≤ c && c ≤ '9' then c.toNat - 48
  else if 'a' ≤ c && c ≤ 'z' then c.toNat - 87
  else if 'A' ≤ c && c ≤ 'Z' then c.toNat - 55
  else 36

/-- A digit of the given radix, which is at most 36. -/
def isDigitOf (radix : Nat) (c : Char) : Bool :=
  digitValue c < radix

/-- The number that a list of digits denotes in a radix. -/
def digitsValue (radix : Nat) (digits : List Char) : Nat :=
  digits.foldl (fun acc c => acc * radix + digitValue c) 0

/-- Removes blanks at the start. -/
def trimStart (text : List Char) : List Char :=
  text.dropWhile isBlank

/-- Removes blanks at the end. -/
def trimEnd (text : List Char) : List Char :=
  (text.reverse.dropWhile isBlank).reverse

/-- Removes blanks at both ends. -/
def trim (text : List Char) : List Char :=
  trimEnd (trimStart text)

theorem isBlank_of_isWhitespace {c : Char} (h : c.isWhitespace = true) : isBlank c = true := by
  simp only [Char.isWhitespace, Bool.or_eq_true, decide_eq_true_eq] at h
  rcases h with ((rfl | rfl) | rfl) | rfl <;> decide

end FieldScript.Text
