import FieldScript.Token.Scan

/-!
# Words and marks in a text

What the scan makes of a piece of text that stands at the start of a longer one. A lexeme is a token
without a place; it *scans* in front of a text if the scan finds just this token there and goes on
with that text.

* `Lexeme.word_scans`: a word scans in front of everything that does not continue it.
* `Lexeme.mark_scans`: a mark scans where it is the longest one that fits.
-/

namespace FieldScript.Token

open FieldScript.Text

/-! ## Cursors in front of a known text -/

/-- A text that does not go on with a character of a class. -/
def Halts (p : Char → Bool) (cs : List Char) : Prop :=
  ∀ c ∈ cs.head?, p c = false

theorem halts_nil (p : Char → Bool) : Halts p [] := nofun

theorem halts_cons {p : Char → Bool} {c : Char} {cs : List Char} : Halts p (c :: cs) ↔ p c = false := by
  simp [Halts]

theorem Halts.mono {p q : Char → Bool} {cs : List Char} (h : Halts p cs)
    (himp : ∀ c, q c = true → p c = true) : Halts q cs := by
  intro c hc
  cases hq : q c with
  | false => rfl
  | true => exact absurd (himp c hq) (by simp [h c hc])

/-- What is left behind all characters of a class does not go on with one. -/
theorem halts_dropWhile (p : Char → Bool) (cs : List Char) : Halts p (cs.dropWhile p) := by
  induction cs with
  | nil => exact halts_nil p
  | cons c rest ih =>
      cases hc : p c with
      | true => rwa [List.dropWhile_cons_of_pos hc]
      | false =>
          rw [List.dropWhile_cons_of_neg (by simp [hc])]
          exact halts_cons.2 hc

/-- The characters of a class at the start of a text, and the rest. -/
theorem exists_halts (p : Char → Bool) (cs : List Char) :
    ∃ w rest, cs = w ++ rest ∧ (∀ c ∈ w, p c = true) ∧ Halts p rest :=
  ⟨cs.takeWhile p, cs.dropWhile p, List.takeWhile_append_dropWhile.symm, List.all_eq_true.1 List.all_takeWhile,
    halts_dropWhile p cs⟩

theorem Halts.takeWhile_eq {p : Char → Bool} {cs : List Char} (h : Halts p cs) : cs.takeWhile p = [] := by
  cases cs with
  | nil => rfl
  | cons c rest => exact List.takeWhile_cons_of_neg (by simp [halts_cons.1 h])

theorem Halts.dropWhile_eq {p : Char → Bool} {cs : List Char} (h : Halts p cs) : cs.dropWhile p = cs := by
  cases cs with
  | nil => rfl
  | cons c rest => exact List.dropWhile_cons_of_neg (by simp [halts_cons.1 h])

namespace Cursor

variable {p : Char → Bool} {w cs : List Char} {o : Nat}

theorem takeWhile_append (hw : ∀ c ∈ w, p c = true) (hcs : Halts p cs) :
    (⟨w ++ cs, o⟩ : Cursor).takeWhile p = (w, ⟨cs, o + byteLength w⟩) := by
  have htake : (w ++ cs).takeWhile p = w := by
    rw [List.takeWhile_append_of_pos hw, hcs.takeWhile_eq, List.append_nil]
  have hdrop : (w ++ cs).dropWhile p = cs := by
    rw [List.dropWhile_append_of_pos hw, hcs.dropWhile_eq]
  simp only [Cursor.takeWhile, past, htake, hdrop]

theorem drop_append {n : Nat} (hn : w.length = n) :
    (⟨w ++ cs, o⟩ : Cursor).drop n = ⟨cs, o + byteLength w⟩ := by
  subst hn
  simp [drop, past]

@[simp] theorem drop_one {c : Char} : (⟨c :: cs, o⟩ : Cursor).drop 1 = ⟨cs, o + c.utf8Size⟩ := rfl

@[simp] theorem drop_two {c c' : Char} :
    (⟨c :: c' :: cs, o⟩ : Cursor).drop 2 = ⟨cs, o + (c.utf8Size + c'.utf8Size)⟩ := rfl

theorem upTo_append {o' : Nat} : (⟨w ++ cs, o⟩ : Cursor).upTo ⟨cs, o'⟩ = w := by
  simp [upTo]

end Cursor

/-! ## Lexemes -/

/-- Whether a token marks the end of the text. -/
def Kind.isEnd : Kind → Bool
  | .eof => true
  | _ => false

/-- A token without its place. -/
structure Lexeme where
  kind : Kind
  chars : List Char

namespace Lexeme

/-- The scan finds a lexeme in front of a text, whatever the offset, and leaves other depths behind. -/
structure Scans (l : Lexeme) (d d' : Depths) (cs : List Char) : Prop where
  ne_nil : l.chars ≠ []
  solid : l.kind.isEnd = false
  skip : ∀ o newline, skipTrivia .code o newline (l.chars ++ cs) = .ok (newline, ⟨l.chars ++ cs, o⟩)
  kind : ∀ o, scanKind d ⟨l.chars ++ cs, o⟩ = .ok (l.kind, d', ⟨cs, o + byteLength l.chars⟩)

/-- A word. -/
def word (s : String) : Lexeme := ⟨wordKind s, s.toList⟩

/-- A mark. -/
def mark (p : Punct) : Lexeme := ⟨.punct p, p.text.toList⟩

end Lexeme

/-- Nothing is skipped where neither a blank nor a comment stands. -/
theorem skipTrivia_of_solid {x : Char} {rest : List Char}
    (hcomment : x = '/' → rest.head? ≠ some '/' ∧ rest.head? ≠ some '*')
    (hline : x ≠ '\n') (hblank : isAsciiBlank x = false) (hwide : (0x80 ≤ x.toNat && isBlank x) = false)
    (o : Nat) (newline : Bool) :
    skipTrivia .code o newline (x :: rest) = .ok (newline, ⟨x :: rest, o⟩) := by
  unfold skipTrivia
  split
  · simp_all
  · simp_all
  · simp_all
  · simp_all
  all_goals simp_all

/-! ## Words -/

/-- Characters that a word may start with. -/
def isWordHead (c : Char) : Bool := isWordStart c || (0x80 ≤ c.toNat && isLetter c)

/-- A text that is a word. -/
def IsWord (cs : List Char) : Prop :=
  ∃ c rest, cs = c :: rest ∧ isWordHead c = true ∧ ∀ x ∈ rest, isWordPart x = true

theorem isWord_keyword (k : Keyword) : IsWord k.text.toList := by
  cases k <;> exact ⟨_, _, rfl, by decide, List.all_eq_true.1 (by decide)⟩

/-- The blocks of the blanks outside of ASCII. -/
def wideBlanks : List (Nat × Nat) :=
  [(0x85, 0x85), (0xA0, 0xA0), (0x1680, 0x1680), (0x2000, 0x200A), (0x2028, 0x2028), (0x2029, 0x2029),
    (0x202F, 0x202F), (0x205F, 0x205F), (0x3000, 0x3000)]

theorem exists_wideBlank {c : Char} (hwide : 0x80 ≤ c.toNat) (h : isBlank c = true) :
    ∃ b ∈ wideBlanks, b.1 ≤ c.toNat ∧ c.toNat ≤ b.2 := by
  simp only [isBlank, Bool.or_eq_true, Bool.and_eq_true, decide_eq_true_eq, beq_iff_eq] at h
  rcases h with (((((((((⟨-, h⟩ | h) | h) | h) | h) | h) | h) | h) | h) | h) | h
  all_goals first
    | exact absurd hwide (by omega)
    | exact ⟨(0x2000, 0x200A), by decide, h⟩
    | exact ⟨(c.toNat, c.toNat), by rw [h]; decide, Nat.le_refl _, Nat.le_refl _⟩

theorem inBlocks_toList (table : Array (Nat × Nat)) (code : Nat) :
    inBlocks table code = table.toList.any fun block => block.1 ≤ code && code ≤ block.2 := by
  rw [inBlocks, Array.any_toList]

/-- Whether the blocks of a table are apart from those of the blanks. -/
def apartFromBlanks (table : Array (Nat × Nat)) : Bool :=
  table.toList.all fun block => wideBlanks.all fun b => block.2.blt b.1 || b.2.blt block.1

theorem inBlocks_wideBlank {table : Array (Nat × Nat)} (h : apartFromBlanks table = true) {b : Nat × Nat} {n : Nat}
    (hb : b ∈ wideBlanks) (hn : b.1 ≤ n ∧ n ≤ b.2) : inBlocks table n = false := by
  rw [inBlocks_toList, List.any_eq_false]
  intro block hblock hin
  have hapart := List.all_eq_true.1 (List.all_eq_true.1 h block hblock) b hb
  rw [Bool.or_eq_true, Nat.blt_eq, Nat.blt_eq] at hapart
  rw [Bool.and_eq_true, decide_eq_true_eq, decide_eq_true_eq] at hin
  omega

/-- No blank is a letter or a number. -/
theorem tables_apart : apartFromBlanks Table.alphabetic = true ∧ apartFromBlanks Table.numeric = true := by decide +kernel

/-- Letters and numbers outside of ASCII are no blanks. -/
theorem isBlank_of_isLetterOrNumber {c : Char} (hwide : 0x80 ≤ c.toNat) (h : isLetterOrNumber c = true) :
    isBlank c = false := by
  cases hblank : isBlank c with
  | false => rfl
  | true =>
      obtain ⟨b, hmem, hin⟩ := exists_wideBlank hwide hblank
      have hnarrow : ¬ c.toNat < 0x80 := by omega
      simp [isLetterOrNumber, isLetter, isNumber, hnarrow, inBlocks_wideBlank tables_apart.1 hmem hin,
        inBlocks_wideBlank tables_apart.2 hmem hin] at h

/-- The letters of ASCII, by their code points. -/
theorem toNat_of_isAlpha {c : Char} (h : c.isAlpha = true) :
    (65 ≤ c.toNat ∧ c.toNat ≤ 90) ∨ (97 ≤ c.toNat ∧ c.toNat ≤ 122) := by
  change (decide (65 ≤ c.val ∧ c.val ≤ 90) || (decide (97 ≤ c.val) && decide (c.val ≤ 122))) = true at h
  simp only [Bool.or_eq_true, Bool.and_eq_true, decide_eq_true_eq, UInt32.le_iff_toNat_le] at h
  exact h

theorem toNat_of_isDigit {c : Char} (h : isDigit c = true) : 48 ≤ c.toNat ∧ c.toNat ≤ 57 := by
  simp only [isDigit, Bool.and_eq_true, decide_eq_true_eq, Char.le_def, UInt32.le_iff_toNat_le] at h
  exact h

/-- A character that may start a token of a kind of its own: no literal, no blank and no comment starts with it. -/
structure IsPlain (c : Char) : Prop where
  quote : (c = '"' || c = '\'') = false
  tick : c.toNat ≠ 96
  digit : isDigit c = false
  line : c ≠ '\n'
  blank : isAsciiBlank c = false
  wide : (0x80 ≤ c.toNat && isBlank c) = false

theorem isPlain_of_isWordHead {c : Char} (h : isWordHead c = true) : IsPlain c := by
  have hcode : (65 ≤ c.toNat ∧ c.toNat ≤ 90) ∨ (97 ≤ c.toNat ∧ c.toNat ≤ 122) ∨ c = '_' ∨ c = '$' ∨
      (0x80 ≤ c.toNat ∧ isLetter c = true) := by
    simp only [isWordHead, isWordStart, Bool.or_eq_true, Bool.and_eq_true, decide_eq_true_eq] at h
    rcases h with ((halpha | hname) | hname) | hwide
    · rcases toNat_of_isAlpha halpha with hupper | hlower
      · exact .inl hupper
      · exact .inr (.inl hlower)
    · exact .inr (.inr (.inl hname))
    · exact .inr (.inr (.inr (.inl hname)))
    · exact .inr (.inr (.inr (.inr hwide)))
  refine ⟨?_, ?_, ?_, ?_, ?_, ?_⟩
  · cases hq : (c = '"' || c = '\'' : Bool) with
    | false => rfl
    | true =>
        simp only [Bool.or_eq_true, decide_eq_true_eq] at hq
        rcases hq with rfl | rfl <;> revert h <;> decide
  · intro htick
    have : c = '\x60' := Char.toNat_inj.1 htick
    subst this
    revert h
    decide
  · cases hd : isDigit c with
    | false => rfl
    | true =>
        have hrange := toNat_of_isDigit hd
        rcases hcode with hc | hc | rfl | rfl | ⟨hc, -⟩
        · omega
        · omega
        · simp at hrange
        · simp at hrange
        · omega
  · rintro rfl
    revert h
    decide
  · cases hb : isAsciiBlank c with
    | false => rfl
    | true =>
        simp only [isAsciiBlank, Bool.or_eq_true, decide_eq_true_eq] at hb
        rcases hb with (((rfl | rfl) | rfl) | rfl) | rfl <;> revert h <;> decide
  · cases hw : (0x80 ≤ c.toNat && isBlank c : Bool) with
    | false => rfl
    | true =>
        simp only [Bool.and_eq_true, decide_eq_true_eq] at hw
        rcases hcode with hc | hc | rfl | rfl | ⟨-, hc⟩
        · omega
        · omega
        · simp at hw
        · simp at hw
        · rw [isBlank_of_isLetterOrNumber hw.1 (by simp [isLetterOrNumber, hc])] at hw
          simp at hw

theorem isWordPart_of_isWordHead {c : Char} (h : isWordHead c = true) : isWordPart c = true := by
  have hpart : isLetter c = true → isWordPart c = true := by
    intro hletter
    rw [isWordPart, isLetterOrNumber, hletter, Bool.true_or, Bool.true_or, Bool.true_or]
  simp only [isWordHead, isWordStart, Bool.or_eq_true, Bool.and_eq_true, decide_eq_true_eq] at h
  rcases h with ((halpha | rfl) | rfl) | ⟨-, hletter⟩
  · have hascii : c.toNat < 0x80 := by
      rcases toNat_of_isAlpha halpha with hrange | hrange <;> omega
    exact hpart (by rw [isLetter, if_pos hascii, halpha])
  · rfl
  · rfl
  · exact hpart hletter

/-- A text that does not continue a word. -/
abbrev Breaks (cs : List Char) : Prop := Halts isWordPart cs

theorem isEnd_wordKind (word : String) : (wordKind word).isEnd = false := by
  unfold wordKind
  split
  · rfl
  · split <;> rfl

theorem Lexeme.word_scans {s : String} (hs : IsWord s.toList) {cs : List Char} (hcs : Breaks cs) (d : Depths) :
    (word s).Scans d d cs := by
  obtain ⟨c, rest, hword, hhead, hrest⟩ := hs
  have hplain := isPlain_of_isWordHead hhead
  have hall : ∀ x ∈ c :: rest, isWordPart x = true := by
    intro x hx
    rcases List.mem_cons.1 hx with rfl | hx
    · exact isWordPart_of_isWordHead hhead
    · exact hrest x hx
  refine ⟨?_, isEnd_wordKind s, ?_, ?_⟩
  · simp [word, hword]
  · have hslash : c ≠ '/' := by
      rintro rfl
      revert hhead
      decide
    simp only [word, hword, List.cons_append]
    exact skipTrivia_of_solid (fun h => absurd h hslash) hplain.line hplain.blank hplain.wide
  · intro o
    have hpoint : c ≠ '.' := by
      rintro rfl
      revert hhead
      decide
    have hbrace : c ≠ '}' := by
      rintro rfl
      revert hhead
      decide
    have htake := Cursor.takeWhile_append (o := o) hall hcs
    have hstart : (isWordStart c || (0x80 ≤ c.toNat && isLetter c)) = true := hhead
    have hofList : String.ofList (c :: rest) = s := by rw [← hword, String.ofList_toList]
    simp only [word, hword]
    simp only [List.cons_append] at htake ⊢
    simp only [scanKind, hplain.quote, hplain.tick, hplain.digit, hpoint, hbrace, hstart, htake, hofList,
      decide_false, Bool.false_and, Bool.false_eq_true, if_false, if_true]

/-! ## Marks -/

/-- Characters that a mark may start with. -/
def isMarkHead (c : Char) : Bool :=
  c.toNat < 0x80 && !isWordStart c && !(c = '"' || c = '\'') && c.toNat ≠ 96 && !isDigit c && c ≠ '\n' &&
    !isAsciiBlank c

theorem isPlain_of_isMarkHead {c : Char} (h : isMarkHead c = true) : IsPlain c := by
  simp only [isMarkHead, Bool.and_eq_true, Bool.not_eq_true', decide_eq_true_eq] at h
  obtain ⟨⟨⟨⟨⟨⟨hascii, -⟩, hquote⟩, htick⟩, hdigit⟩, hline⟩, hblank⟩ := h
  refine ⟨hquote, htick, hdigit, hline, hblank, ?_⟩
  have hnarrow : ¬ 0x80 ≤ c.toNat := by omega
  simp [hnarrow]

theorem isWordHead_of_isMarkHead {c : Char} (h : isMarkHead c = true) : isWordHead c = false := by
  simp only [isMarkHead, Bool.and_eq_true, Bool.not_eq_true', decide_eq_true_eq] at h
  have hnarrow : ¬ 0x80 ≤ c.toNat := by omega
  simp [isWordHead, hnarrow, h]

/-- The first character of a mark, and the marks that start like a number, a brace or a comment. -/
theorem mark_cases (p : Punct) : ∃ x rest, p.text.toList = x :: rest ∧ isMarkHead x = true ∧
    (x = '.' → p = .dot ∧ rest = [] ∨ rest.head? = some '.') ∧ (x = '}' → p = .closeBrace) ∧
    (x = '/' → p = .slash ∧ rest = [] ∨ rest.head? = some '=') := by
  cases p <;> exact ⟨_, _, rfl, by decide, by decide, by decide, by decide⟩

/-- A mark scans where no longer one fits, a point not in front of a digit, a slash not at a comment, and a
brace not where it ends a substitution. -/
theorem Lexeme.mark_scans {p : Punct} {cs : List Char} {d : Depths}
    (hlead : leadingPunct? (p.text.toList ++ cs) = some p) (hdot : p = .dot → Halts isDigit cs)
    (hslash : p = .slash → cs.head? ≠ some '/' ∧ cs.head? ≠ some '*')
    (hclose : p = .closeBrace → d.head? ≠ some 0) : (mark p).Scans d (d.after p) cs := by
  obtain ⟨x, rest, htext, hhead, hpoint, hbrace, hcomment⟩ := mark_cases p
  have hplain := isPlain_of_isMarkHead hhead
  refine ⟨?_, rfl, ?_, ?_⟩
  · simp [mark, htext]
  · simp only [mark, htext, List.cons_append]
    refine skipTrivia_of_solid (fun hx => ?_) hplain.line hplain.blank hplain.wide
    rcases hcomment hx with ⟨hp, rfl⟩ | hrest
    · exact hslash hp
    · cases rest with
      | nil => cases hrest
      | cons y more =>
          cases hrest
          simp
  · intro o
    have hstart : (isWordStart x || (0x80 ≤ x.toNat && isLetter x)) = false := isWordHead_of_isMarkHead hhead
    have hnumber : (x = '.' && (rest ++ cs).head?.any isDigit : Bool) = false := by
      by_cases hx : x = '.'
      · rcases hpoint hx with ⟨hp, rfl⟩ | hrest
        · cases cs with
          | nil => simp
          | cons c more => simp [halts_cons.1 (hdot hp)]
        · cases rest with
          | nil => cases hrest
          | cons y more =>
              cases hrest
              have hdigit : isDigit '.' = false := by decide
              simp [hdigit]
      · simp [hx]
    have hsubstitution : (x = '}' && d.head? = some 0 : Bool) = false := by
      by_cases hx : x = '}'
      · simp [hclose (hbrace hx)]
      · simp [hx]
    have hlength : (x :: rest).length = p.text.length := by
      rw [← htext, String.length_toList]
    have hdrop : (Cursor.mk (x :: rest ++ cs) o).drop p.text.length = ⟨cs, o + byteLength (x :: rest)⟩ :=
      Cursor.drop_append hlength
    rw [htext] at hlead
    simp only [mark, htext]
    simp only [List.cons_append] at hdrop hlead ⊢
    simp only [scanKind, hplain.quote, hplain.tick, hplain.digit, hnumber, hsubstitution, hstart, hlead, hdrop,
      Bool.false_eq_true, if_false]

/-! ### The longest mark that fits

A mark is tried after all longer ones. One of those fits only if it goes on from the mark, so that what follows has to
start with one of a few characters. -/

/-- The characters of a mark, one by one. -/
def markChars : Punct → List Char
  | .ushrAssign => ['>', '>', '>', '=']
  | .ellipsis => ['.', '.', '.']
  | .strictEq => ['=', '=', '=']
  | .strictNotEq => ['!', '=', '=']
  | .expAssign => ['*', '*', '=']
  | .shlAssign => ['<', '<', '=']
  | .shrAssign => ['>', '>', '=']
  | .ushr => ['>', '>', '>']
  | .andAssign => ['&', '&', '=']
  | .orAssign => ['|', '|', '=']
  | .nullishAssign => ['?', '?', '=']
  | .arrow => ['=', '>']
  | .eq => ['=', '=']
  | .notEq => ['!', '=']
  | .lessEq => ['<', '=']
  | .greaterEq => ['>', '=']
  | .and => ['&', '&']
  | .or => ['|', '|']
  | .nullish => ['?', '?']
  | .optionalDot => ['?', '.']
  | .increment => ['+', '+']
  | .decrement => ['-', '-']
  | .addAssign => ['+', '=']
  | .subAssign => ['-', '=']
  | .mulAssign => ['*', '=']
  | .divAssign => ['/', '=']
  | .modAssign => ['%', '=']
  | .bitAndAssign => ['&', '=']
  | .bitOrAssign => ['|', '=']
  | .bitXorAssign => ['^', '=']
  | .exp => ['*', '*']
  | .shl => ['<', '<']
  | .shr => ['>', '>']
  | .openBrace => ['{']
  | .closeBrace => ['}']
  | .openParen => ['(']
  | .closeParen => [')']
  | .openBracket => ['[']
  | .closeBracket => [']']
  | .semicolon => [';']
  | .comma => [',']
  | .less => ['<']
  | .greater => ['>']
  | .plus => ['+']
  | .minus => ['-']
  | .star => ['*']
  | .slash => ['/']
  | .percent => ['%']
  | .amp => ['&']
  | .bar => ['|']
  | .caret => ['^']
  | .bang => ['!']
  | .tilde => ['~']
  | .question => ['?']
  | .colon => [':']
  | .assign => ['=']
  | .dot => ['.']

theorem toList_mark (p : Punct) : p.text.toList = markChars p := by cases p <;> rfl

/-- The marks that are tried before a mark. -/
def triedBefore (p : Punct) : List Punct := Punct.all.takeWhile (· ≠ p)

/-- The characters with which a longer mark goes on from a mark. -/
def followers (p : Punct) : List Char :=
  (triedBefore p).filterMap fun q =>
    if (markChars p).isPrefixOf (markChars q) then ((markChars q).drop (markChars p).length).head? else none

theorem all_eq_triedBefore (p : Punct) : ∃ others, Punct.all = triedBefore p ++ p :: others := by
  have hmem : p ∈ Punct.all := by cases p <;> decide
  obtain ⟨earlier, others, hall, hnot⟩ := List.eq_append_cons_of_mem hmem
  have hearlier : triedBefore p = earlier := by
    unfold triedBefore
    rw [hall, List.takeWhile_append_of_pos]
    · simp
    · intro q hq
      rw [decide_eq_true_eq]
      rintro rfl
      exact hnot hq
  exact ⟨others, by rw [hearlier, hall]⟩

/-- No mark starts with one that is tried before it. -/
theorem triedBefore_not_prefix : ∀ p ∈ Punct.all, ∀ q ∈ triedBefore p, ¬ markChars q <+: markChars p := by
  simp only [← List.isPrefixOf_iff_prefix]
  decide +kernel

/-- A mark fits where what follows does not start with a character with which a longer mark goes on. -/
theorem leadingPunct?_append {p : Punct} {cs : List Char} (hcs : ∀ c ∈ cs.head?, c ∉ followers p)
    (hdigit : p = .optionalDot → Halts isDigit cs) : leadingPunct? (p.text.toList ++ cs) = some p := by
  obtain ⟨others, hall⟩ := all_eq_triedBefore p
  rw [toList_mark]
  refine List.find?_eq_some_iff_append.2 ⟨?_, triedBefore p, others, hall, fun q hq => ?_⟩
  · rw [toList_mark, Bool.and_eq_true, List.isPrefixOf_iff_prefix]
    refine ⟨List.prefix_append _ _, ?_⟩
    by_cases hp : p = .optionalDot
    · subst hp
      cases cs with
      | nil => rfl
      | cons c cs => simp [markChars, halts_cons.1 (hdigit rfl)]
    · simp [hp]
  · have hfalse : (markChars q).isPrefixOf (markChars p ++ cs) = false := by
      rw [Bool.eq_false_iff, ne_eq, List.isPrefixOf_iff_prefix]
      intro hfits
      have hmem : p ∈ Punct.all := hall ▸ List.mem_append_right _ List.mem_cons_self
      rcases List.prefix_or_prefix_of_prefix hfits (List.prefix_append (markChars p) cs) with hshort | ⟨more, hlong⟩
      · exact triedBefore_not_prefix p hmem q hq hshort
      -- The mark is longer, and its next character is the first one of what follows.
      · rw [← hlong, List.prefix_append_right_inj] at hfits
        cases more with
        | nil => exact triedBefore_not_prefix p hmem q hq ⟨[], by rw [← hlong, List.append_nil, List.append_nil]⟩
        | cons c more =>
            obtain ⟨rest, rfl⟩ := hfits
            refine hcs c rfl (List.mem_filterMap.2 ⟨q, hq, ?_⟩)
            rw [if_pos (List.isPrefixOf_iff_prefix.2 ⟨_, hlong⟩), ← hlong, List.drop_left]
            rfl
    rw [toList_mark, hfalse, Bool.false_and, Bool.not_false]

/-- In front of a blank every mark is the longest one that fits. -/
theorem leadingPunct?_blank (p : Punct) (cs : List Char) :
    leadingPunct? (p.text.toList ++ ' ' :: cs) = some p := by
  refine leadingPunct?_append (fun c hc hfollows => ?_) fun _ => halts_cons.2 rfl
  cases hc
  have hblank : ∀ q ∈ Punct.all, ' ' ∉ markChars q := by decide
  obtain ⟨q, -, hq⟩ := List.mem_filterMap.1 hfollows
  obtain ⟨-, hq⟩ := Option.ite_none_right_eq_some.1 hq
  exact hblank q (by cases q <;> decide) (List.mem_of_mem_drop (List.mem_of_mem_head? hq))

/-- The marks that no other mark starts with. -/
def isTight : Punct → Bool
  | .openParen | .closeParen | .openBracket | .closeBracket | .openBrace | .closeBrace | .comma | .semicolon
  | .colon | .tilde | .ellipsis | .increment | .decrement => true
  | _ => false

theorem leadingPunct?_tight {p : Punct} (hp : isTight p = true) (cs : List Char) :
    leadingPunct? (p.text.toList ++ cs) = some p := by
  have hnone : followers p = [] := by cases p <;> first | decide | cases hp
  refine leadingPunct?_append (fun c _ => ?_) fun h => ?_
  · rw [hnone]
    exact List.not_mem_nil
  · subst h
    cases hp

/-! The other marks that stand directly in front of something else. -/

variable {c : Char}

theorem leadingPunct?_dot (hc : c ≠ '.') (cs : List Char) : leadingPunct? ('.' :: c :: cs) = some .dot := by
  refine leadingPunct?_append (p := .dot) (fun c' hc' => ?_) nofun
  cases hc'
  rw [show followers .dot = ['.'] by decide]
  simpa using hc

theorem leadingPunct?_optionalDot (hc : isDigit c = false) (cs : List Char) :
    leadingPunct? ('?' :: '.' :: c :: cs) = some .optionalDot := by
  refine leadingPunct?_append (p := .optionalDot) (fun c' _ => ?_) fun _ => halts_cons.2 hc
  rw [show followers .optionalDot = [] by decide]
  exact List.not_mem_nil

theorem leadingPunct?_bang (hc : c ≠ '=') (cs : List Char) : leadingPunct? ('!' :: c :: cs) = some .bang := by
  refine leadingPunct?_append (p := .bang) (fun c' hc' => ?_) nofun
  cases hc'
  rw [show followers .bang = ['=', '='] by decide]
  simpa using hc

theorem leadingPunct?_minus (heq : c ≠ '=') (hc : c ≠ '-') (cs : List Char) :
    leadingPunct? ('-' :: c :: cs) = some .minus := by
  refine leadingPunct?_append (p := .minus) (fun c' hc' => ?_) nofun
  cases hc'
  rw [show followers .minus = ['-', '='] by decide]
  simpa using ⟨hc, heq⟩

theorem leadingPunct?_plus (heq : c ≠ '=') (hc : c ≠ '+') (cs : List Char) :
    leadingPunct? ('+' :: c :: cs) = some .plus := by
  refine leadingPunct?_append (p := .plus) (fun c' hc' => ?_) nofun
  cases hc'
  rw [show followers .plus = ['+', '='] by decide]
  simpa using ⟨hc, heq⟩

end FieldScript.Token
