import FieldScript.Proofs.Token.Numbers
import FieldScript.Proofs.Token.Texts

/-!
# Streams of known tokens

From a text to its tokens and back. Every token of a scan carries a text that the scan reads as this token again
(`Stream.ofSource_sound`). Conversely, where a text is laid out as lexemes with blanks between them, its tokens are
these lexemes (`Lays.spells`), unless digits stand in front of a point and a word: every such place loses a point
(`Lays.dots_eq`).
-/

namespace FieldScript.Token

open FieldScript.Text

/-! ## The text of a token -/

/-- A text that is read as a token of a kind. -/
def Kind.Fits : Kind → List Char → Prop
  | .number x, raw => IsNumber x raw
  | .string s, raw => IsQuoted s raw
  | .template part, _ => IsPart part
  | .templateHead part, _ => IsPart part
  | .templateMiddle part, _ => IsPart part
  | .templateTail part, _ => IsPart part
  | .identifier name, _ => IsWord name.toList ∧ wordKind name = .identifier name
  | .keyword word, raw => raw = word.text.toList
  | .reserved word, _ => IsWord word.toList ∧ wordKind word = .reserved word
  | .punct _, _ => True
  | .eof, _ => True

theorem text_of_ofWord? {word : String} {k : Keyword} (h : Keyword.ofWord? word = some k) : k.text = word := by
  simpa using List.find?_some h

/-- What a word is, it is under its own name. -/
theorem wordKind_cases (word : String) : (∃ k : Keyword, wordKind word = .keyword k ∧ k.text = word) ∨
    wordKind word = .reserved word ∨ wordKind word = .identifier word := by
  unfold wordKind
  cases hk : Keyword.ofWord? word with
  | some k => exact .inl ⟨k, rfl, text_of_ofWord? hk⟩
  | none =>
      right
      dsimp only
      split
      · exact .inl rfl
      · exact .inr rfl

theorem fits_wordKind {w : List Char} (hw : IsWord w) : (wordKind (String.ofList w)).Fits w := by
  have hlist : IsWord (String.ofList w).toList := by rwa [String.toList_ofList]
  rcases wordKind_cases (String.ofList w) with ⟨k, hkind, htext⟩ | hkind | hkind
  · rw [hkind]
    show w = k.text.toList
    rw [htext, String.toList_ofList]
  · rw [hkind]
    exact ⟨hlist, hkind⟩
  · rw [hkind]
    exact ⟨hlist, hkind⟩

/-- The words at the start of a text. -/
theorem isWord_takeWhile {x : Char} {rest : List Char} (hx : isWordHead x = true) :
    IsWord ((x :: rest).takeWhile isWordPart) := by
  rw [List.takeWhile_cons_of_pos (isWordPart_of_isWordHead hx)]
  exact ⟨x, _, rfl, hx, List.all_eq_true.1 List.all_takeWhile⟩

/-- A piece of a template that the scan has found. -/
theorem scanTemplate_isPart {start o fuel : Nat} {rest : List Char} {part : TemplatePart} {ending : TemplateEnd}
    {next : Cursor} (h : scanTemplate start ⟨rest, o⟩ fuel [] ⟨rest, o⟩ = .ok (part, ending, next)) :
    ∃ u, rest = u ++ next.rest ∧ IsPart part := by
  obtain ⟨u, hrest, -, hraw, hagain⟩ := scanTemplate_local h
  rw [hrest, Cursor.upTo_append] at hraw
  refine ⟨u ++ ending.chars, by rw [hrest, List.append_assoc], ?_⟩
  have hlist : part.raw.toList = u := by rw [hraw, String.toList_ofList]
  intro start' first' fuel' ending' r o' hfuel
  rw [hlist] at hfuel ⊢
  exact hagain start' first' fuel' ending' r o' hfuel

theorem fits_templateKind {part : TemplatePart} (h : IsPart part) (head : Bool) (ending : TemplateEnd) (w : List Char) :
    (templateKind head part ending).Fits w := by
  cases head <;> cases ending <;> exact h

/-- A quoted text that the scan has found. -/
theorem scanString_isQuoted {quote : Char} {start o fuel : Nat} {rest : List Char} {s : String} {next : Cursor}
    (hquote : (quote = '"' || quote = '\'') = true)
    (h : scanString quote start fuel [] ⟨rest, o⟩ = .ok (s, next)) :
    ∃ w, quote :: rest = w ++ next.rest ∧ IsQuoted s w := by
  obtain ⟨body, hbody, -, -, hagain⟩ := scanString_local h
  exact ⟨quote :: body, by rw [hbody]; rfl, quote, body, rfl, hquote, hagain⟩

/-- The scan of a token moves behind a text that fits it. -/
theorem scanKind_fits {d d' : Depths} {c next : Cursor} {kind : Kind} (h : scanKind d c = .ok (kind, d', next)) :
    ∃ w, c.rest = w ++ next.rest ∧ kind.Fits w := by
  obtain ⟨cs, o⟩ := c
  cases cs with
  | nil =>
      cases h
      exact ⟨[], rfl, trivial⟩
  | cons x rest =>
      have hnumber : ∀ {found : Scan (Kind × Depths × Cursor)}, StartsNumber (x :: rest) →
          found = (scanNumber ⟨x :: rest, o⟩).map (fun r => (Kind.number r.1, d, r.2)) →
          found = .ok (kind, d', next) → ∃ w, x :: rest = w ++ next.rest ∧ kind.Fits w := by
        rintro _ hstart rfl hfound
        cases hscan : scanNumber ⟨x :: rest, o⟩ with
        | error fault =>
            rw [hscan] at hfound
            cases hfound
        | ok result =>
            rw [hscan] at hfound
            cases hfound
            obtain ⟨raw, hraw, -, hnum⟩ := scanNumber_isNumber hstart hscan
            exact ⟨raw, hraw, hnum⟩
      simp only [scanKind, Cursor.drop_one] at h
      split at h
      · rename_i hquote
        cases hscan : scanString x o (rest.length + 1) [] ⟨rest, o + x.utf8Size⟩ with
        | error fault =>
            rw [hscan] at h
            cases h
        | ok found =>
            rw [hscan] at h
            cases h
            exact scanString_isQuoted hquote hscan
      split at h
      · split at h
        · rename_i part ending after hscan
          cases h
          obtain ⟨u, hu, hpart⟩ := scanTemplate_isPart hscan
          exact ⟨x :: u, by rw [hu]; rfl, fits_templateKind hpart _ _ _⟩
        · cases h
      split at h
      · rename_i hdigit
        exact hnumber ⟨x, rest, rfl, .inl hdigit⟩ rfl h
      split at h
      · rename_i hpoint
        simp only [Bool.and_eq_true, decide_eq_true_eq] at hpoint
        exact hnumber ⟨x, rest, rfl, .inr hpoint⟩ rfl h
      split at h
      · split at h
        · rename_i part ending after hscan
          cases h
          obtain ⟨u, hu, hpart⟩ := scanTemplate_isPart hscan
          exact ⟨x :: u, by rw [hu]; rfl, fits_templateKind hpart _ _ _⟩
        · cases h
      split at h
      · rename_i hword
        cases h
        exact ⟨(x :: rest).takeWhile isWordPart, List.takeWhile_append_dropWhile.symm,
          fits_wordKind (isWord_takeWhile hword)⟩
      split at h
      · rename_i mark _
        cases h
        exact ⟨(x :: rest).take mark.text.length, (List.take_append_drop _ _).symm, trivial⟩
      · cases h

theorem scanToken_fits {d d' : Depths} {c next : Cursor} {t : Token} (h : scanToken d c = .ok (t, d', next)) :
    t.kind.Fits t.text.toList := by
  simp only [scanToken] at h
  split at h
  · cases h
  · rename_i newline first _
    split at h
    · cases h
    · rename_i kind depths after hkind
      cases h
      obtain ⟨w, hw, hfits⟩ := scanKind_fits hkind
      obtain ⟨cs, o⟩ := first
      obtain ⟨rest, o'⟩ := next
      simp only at hw
      simp only [hw, Cursor.upTo_append, String.toList_ofList]
      exact hfits

/-! ## Sound streams -/

/-- Streams in which every token has a text that is read as it, and in which the end mark stands at the end. -/
def Stream.Sound : Stream → Prop
  | .cons t rest => t.kind.Fits t.text.toList ∧ t.isEof = false ∧ rest.Sound
  | .done t => t.isEof = true
  | .failed _ => True

theorem Stream.scan_sound (fuel : Nat) (d : Depths) (c : Cursor) : (scan fuel d c).Sound := by
  induction fuel generalizing d c with
  | zero => trivial
  | succ fuel ih =>
      simp only [scan]
      split
      · trivial
      · rename_i t depths next htoken
        split
        · assumption
        · rename_i heof
          exact ⟨scanToken_fits htoken, by simpa using heof, ih depths next⟩

theorem Stream.ofSource_sound (source : Source) (offset : Nat) : (ofSource source offset).Sound := by
  simp only [ofSource]
  split
  · exact scan_sound _ _ _
  · trivial

/-- The tokens of a whole source. -/
theorem Stream.ofSource_zero (source : Source) :
    ofSource source 0 = scan (source.chars.length + 1) [] ⟨source.chars, 0⟩ := by
  simp [ofSource]

/-! ## Tokens without places -/

/-- A stream starts with tokens for these lexemes, none of them on a new line, and goes on with another stream. -/
inductive Spells : Stream → List Lexeme → Stream → Prop where
  | nil (rest : Stream) : Spells rest [] rest
  | cons {t : Token} {l : Lexeme} {s rest : Stream} {ls : List Lexeme} (kind : t.kind = l.kind)
      (text : t.text = String.ofList l.chars) (line : t.newlineBefore = false) (more : Spells s ls rest) :
      Spells (.cons t s) (l :: ls) rest

theorem Spells.split {s rest : Stream} {ls ls' : List Lexeme} (h : Spells s (ls ++ ls') rest) :
    ∃ mid, Spells s ls mid ∧ Spells mid ls' rest := by
  induction ls generalizing s with
  | nil => exact ⟨s, .nil s, h⟩
  | cons l ls ih =>
      cases h with
      | cons kind text line more =>
          obtain ⟨mid, hfirst, hmore⟩ := ih more
          exact ⟨mid, .cons kind text line hfirst, hmore⟩

theorem Spells.length_eq {s rest : Stream} {ls : List Lexeme} (h : Spells s ls rest) :
    s.length = ls.length + rest.length := by
  induction h with
  | nil rest => simp
  | cons kind text line _ ih =>
      simp only [Stream.length, List.length_cons, ih]
      omega

/-- Whether a token is a point. -/
def Kind.isDot : Kind → Bool
  | .punct .dot => true
  | _ => false

/-- The number of points in a stream. -/
def Stream.dots : Stream → Nat
  | .cons t rest => t.kind.isDot.toNat + rest.dots
  | _ => 0

/-- The number of points among lexemes. -/
def dotsOf (ls : List Lexeme) : Nat := ls.countP (·.kind.isDot)

theorem dotsOf_cons (l : Lexeme) (ls : List Lexeme) : dotsOf (l :: ls) = l.kind.isDot.toNat + dotsOf ls := by
  simp only [dotsOf, List.countP_cons]
  cases l.kind.isDot <;> simp <;> omega

theorem isDot_wordKind (word : String) : (wordKind word).isDot = false := by
  rcases wordKind_cases word with ⟨k, hkind, -⟩ | hkind | hkind <;> rw [hkind] <;> rfl

/-- A stream without a fault. -/
def Stream.Finished : Stream → Prop
  | .cons _ rest => rest.Finished
  | .done _ => True
  | .failed _ => False

/-! ## Texts that are laid out -/

/-- A lexeme, or a blank between lexemes. -/
inductive Piece where
  | blank
  | lexeme (l : Lexeme)

namespace Piece

/-- The characters of pieces. -/
def chars : List Piece → List Char
  | [] => []
  | .blank :: more => ' ' :: chars more
  | .lexeme l :: more => l.chars ++ chars more

/-- The lexemes among pieces. -/
def lexemes : List Piece → List Lexeme
  | [] => []
  | .blank :: more => lexemes more
  | .lexeme l :: more => l :: lexemes more

@[simp] theorem chars_append (ps qs : List Piece) : chars (ps ++ qs) = chars ps ++ chars qs := by
  induction ps with
  | nil => rfl
  | cons p ps ih => cases p <;> simp [chars, ih]

@[simp] theorem lexemes_append (ps qs : List Piece) : lexemes (ps ++ qs) = lexemes ps ++ lexemes qs := by
  induction ps with
  | nil => rfl
  | cons p ps ih => cases p <;> simp [lexemes, ih]

end Piece

open Piece (chars lexemes)

/-- Pieces in front of a text in which each lexeme scans, apart from a number of places where digits stand in front
of a point and a word. -/
inductive Lays : Depths → List Piece → List Char → Depths → Nat → Prop where
  | nil (d : Depths) (cs : List Char) : Lays d [] cs d 0
  | blank {d d' : Depths} {ps : List Piece} {cs : List Char} {n : Nat} (more : Lays d ps cs d' n) :
      Lays d (.blank :: ps) cs d' n
  | lexeme {l : Lexeme} {d mid d' : Depths} {ps : List Piece} {cs : List Char} {n : Nat}
      (scans : l.Scans d mid (chars ps ++ cs)) (more : Lays mid ps cs d' n) : Lays d (.lexeme l :: ps) cs d' n
  | fused {x : Float} {raw : List Char} {name : String} {d d' : Depths} {ps : List Piece} {cs : List Char} {n : Nat}
      (number : IsNumber x raw) (digits : ∀ c ∈ raw, isDigitOrGap c = true) (word : IsWord name.toList)
      (clear : Clear (chars ps ++ cs)) (more : Lays d ps cs d' n) :
      Lays d (.lexeme (.number x raw) :: .lexeme (.mark .dot) :: .lexeme (.word name) :: ps) cs d' (n + 1)

theorem Lays.append {d mid d' : Depths} {ps qs : List Piece} {cs : List Char} {n m : Nat}
    (h : Lays d ps (chars qs ++ cs) mid n) (h' : Lays mid qs cs d' m) : Lays d (ps ++ qs) cs d' (n + m) := by
  generalize hrest : chars qs ++ cs = rest at h
  induction h with
  | nil d rest => simpa using h'
  | blank _ ih => exact .blank (ih h' hrest)
  | lexeme scans _ ih =>
      subst hrest
      exact .lexeme (by simpa using scans) (ih h' rfl)
  | @fused _ _ _ _ _ _ _ k number digits word clear _ ih =>
      subst hrest
      have h := Lays.fused number digits word (by simpa using clear) (ih h' rfl)
      rwa [Nat.add_right_comm] at h

/-! ## The tokens of a text that is laid out -/

theorem scanToken_of_scans {l : Lexeme} {d d' : Depths} {cs : List Char} (h : l.Scans d d' cs) (o : Nat) :
    scanToken d ⟨l.chars ++ cs, o⟩ = .ok (⟨l.kind, ⟨o, o + byteLength l.chars⟩, false, String.ofList l.chars⟩, d',
      ⟨cs, o + byteLength l.chars⟩) := by
  simp only [scanToken, h.skip, h.kind, Cursor.upTo_append]

theorem scan_of_scans {l : Lexeme} {d d' : Depths} {cs : List Char} (h : l.Scans d d' cs) (fuel o : Nat) :
    Stream.scan (fuel + 1) d ⟨l.chars ++ cs, o⟩ =
      .cons ⟨l.kind, ⟨o, o + byteLength l.chars⟩, false, String.ofList l.chars⟩
        (Stream.scan fuel d' ⟨cs, o + byteLength l.chars⟩) := by
  have heof : Token.isEof ⟨l.kind, ⟨o, o + byteLength l.chars⟩, false, String.ofList l.chars⟩ = false := h.solid
  simp [Stream.scan, scanToken_of_scans h, heof]

theorem scan_blank (fuel : Nat) (d : Depths) (cs : List Char) (o : Nat) :
    Stream.scan fuel d ⟨' ' :: cs, o⟩ = Stream.scan fuel d ⟨cs, o + 1⟩ ∨ fuel = 0 := by
  cases fuel with
  | zero => exact .inr rfl
  | succ fuel => exact .inl rfl

/-- The tokens of pieces that all scan are their lexemes. -/
theorem Lays.spells {d d' : Depths} {ps : List Piece} {cs : List Char} {n : Nat} (h : Lays d ps cs d' n) (hn : n = 0)
    {fuel : Nat} (hfuel : (chars ps ++ cs).length < fuel) (o : Nat) :
    ∃ fuel' o', cs.length < fuel' ∧
      Spells (Stream.scan fuel d ⟨chars ps ++ cs, o⟩) (lexemes ps) (Stream.scan fuel' d' ⟨cs, o'⟩) := by
  induction h generalizing fuel o with
  | nil d cs => exact ⟨fuel, o, hfuel, .nil _⟩
  | @blank d d' ps cs n _ ih =>
      simp only [chars, List.cons_append, List.length_cons] at hfuel ⊢
      rcases scan_blank fuel d (chars ps ++ cs) o with hscan | rfl
      · rw [hscan]
        exact ih hn (by omega) (o + 1)
      · omega
  | @lexeme l d mid d' ps cs n scans _ ih =>
      simp only [chars, List.append_assoc, List.length_append] at hfuel ⊢
      have hlength : 0 < l.chars.length := List.length_pos_iff.2 scans.ne_nil
      obtain ⟨fuel, rfl⟩ : ∃ k, fuel = k + 1 := ⟨fuel - 1, by omega⟩
      rw [scan_of_scans scans]
      obtain ⟨fuel', o', hfuel', hspells⟩ := @ih hn fuel (by rw [List.length_append]; omega)
        (o + byteLength l.chars)
      exact ⟨fuel', o', hfuel', .cons rfl rfl rfl hspells⟩
  | fused => cases hn

/-- What starts a part of a word and neither a word nor a number is outside of ASCII. -/
theorem wide_of_isWordPart {c : Char} (hpart : isWordPart c = true) (hstart : isWordStart c = false)
    (hdigit : isDigitOrGap c = false) : 0x80 ≤ c.toNat ∧ isLetterOrNumber c = true := by
  have hclass : isLetterOrNumber c = true := by
    simp only [isWordPart, isWordStart, isDigitOrGap, Bool.or_eq_true, Bool.or_eq_false_iff, decide_eq_true_eq,
      decide_eq_false_iff_not] at *
    simp_all
  refine ⟨Nat.le_of_not_lt fun hascii => ?_, hclass⟩
  simp only [isLetterOrNumber, isLetter, isNumber, hascii, if_true, Bool.or_eq_true] at hclass
  rcases hclass with halpha | hnumber
  · simp [isWordStart, halpha] at hstart
  · have hdigit' : isDigit c = true := by
      simp only [Char.isDigit, Bool.and_eq_true, decide_eq_true_eq, ge_iff_le, UInt32.le_iff_toNat_le] at hnumber
      simp only [isDigit, Bool.and_eq_true, decide_eq_true_eq, Char.le_def, UInt32.le_iff_toNat_le]
      exact hnumber
    simp [isDigitOrGap, hdigit'] at hdigit

theorem leadingPunct?_wide {c : Char} (hwide : 0x80 ≤ c.toNat) (rest : List Char) : leadingPunct? (c :: rest) = none := by
  refine List.find?_eq_none.2 fun p _ => ?_
  obtain ⟨x, more, htext, hhead, -⟩ := mark_cases p
  have hne : (x == c) = false := by
    simp only [isMarkHead, Bool.and_eq_true, decide_eq_true_eq] at hhead
    have hascii : x.toNat < 0x80 := by omega
    exact beq_false_of_ne fun heq => by
      rw [heq] at hascii
      omega
  simp [htext, List.isPrefixOf, hne]

/-- What a number has left of a word is a word again, or no token at all. -/
theorem scan_leftover {u cs : List Char} (hparts : ∀ c ∈ u, isWordPart c = true) (hstart : Halts isWordStart u)
    (hdigit : Halts isDigitOrGap u) (hcs : Breaks cs) {fuel : Nat} {d : Depths} {o : Nat}
    (hfuel : (u ++ cs).length < fuel) (h : (Stream.scan fuel d ⟨u ++ cs, o⟩).Finished) :
    ∃ fuel' o', cs.length < fuel' ∧ (Stream.scan fuel' d ⟨cs, o'⟩).Finished ∧
      (Stream.scan fuel d ⟨u ++ cs, o⟩).dots = (Stream.scan fuel' d ⟨cs, o'⟩).dots := by
  cases u with
  | nil => exact ⟨fuel, o, hfuel, h, rfl⟩
  | cons c u =>
      obtain ⟨hwide, hclass⟩ := wide_of_isWordPart (hparts c List.mem_cons_self) (halts_cons.1 hstart)
        (halts_cons.1 hdigit)
      obtain ⟨fuel, rfl⟩ : ∃ k, fuel = k + 1 := ⟨fuel - 1, by omega⟩
      simp only [List.cons_append, List.length_cons, List.length_append] at hfuel
      by_cases hletter : isLetter c = true
      · have hword : IsWord (String.ofList (c :: u)).toList := by
          rw [String.toList_ofList]
          exact ⟨c, u, rfl, by simp [isWordHead, hwide, hletter], fun x hx => hparts x (List.mem_cons_of_mem c hx)⟩
        have hscan := scan_of_scans (Lexeme.word_scans hword hcs d) fuel o
        simp only [Lexeme.word, String.toList_ofList] at hscan
        rw [hscan] at h ⊢
        refine ⟨fuel, _, by omega, h, ?_⟩
        simp only [Stream.dots, isDot_wordKind, Bool.toNat_false, Nat.zero_add]
      · exfalso
        have hne : ∀ x : Char, x.toNat < 0x80 → c ≠ x := by
          rintro x hx rfl
          omega
        have hskip : ∀ o, skipTrivia .code o false (c :: (u ++ cs)) = .ok (false, ⟨c :: (u ++ cs), o⟩) := by
          refine fun o => skipTrivia_of_solid (fun heq => absurd heq (hne _ (by decide))) (hne _ (by decide)) ?_
            (by simp [isBlank_of_isLetterOrNumber hwide hclass]) o false
          simp [isAsciiBlank, hne ' ' (by decide), hne '\t' (by decide), hne '\r' (by decide), hne '\x0b' (by decide),
            hne '\x0c' (by decide)]
        have hdigit' : isDigit c = false := by
          have hgap := halts_cons.1 hdigit
          simp only [isDigitOrGap, Bool.or_eq_false_iff] at hgap
          exact hgap.1
        have htick : ¬ c.toNat = 96 := by omega
        have hkind : scanKind d ⟨c :: (u ++ cs), o⟩ = .error ⟨.unexpectedCharacter c, ⟨o, o + c.utf8Size⟩⟩ := by
          simp [scanKind, hne '"' (by decide), hne '\'' (by decide), hne '.' (by decide), hne '}' (by decide), htick,
            hdigit', halts_cons.1 hstart, hletter, leadingPunct?_wide hwide]
        simp only [List.cons_append, Stream.scan, scanToken, hskip, hkind] at h
        exact h

/-- Where digits stand in front of a point and a word, the number takes the point. -/
theorem scan_fused {x : Float} {raw : List Char} {name : List Char} (hnumber : IsNumber x raw)
    (hdigits : ∀ c ∈ raw, isDigitOrGap c = true) (hname : ∀ c ∈ name, isWordPart c = true) {cs : List Char}
    (hcs : Clear cs) {fuel : Nat} {d : Depths} {o : Nat} (hfuel : (raw ++ '.' :: (name ++ cs)).length < fuel)
    (h : (Stream.scan fuel d ⟨raw ++ '.' :: (name ++ cs), o⟩).Finished) :
    ∃ fuel' o', cs.length < fuel' ∧ (Stream.scan fuel' d ⟨cs, o'⟩).Finished ∧
      (Stream.scan fuel d ⟨raw ++ '.' :: (name ++ cs), o⟩).dots = (Stream.scan fuel' d ⟨cs, o'⟩).dots := by
  obtain ⟨fuel, rfl⟩ : ∃ k, fuel = k + 1 := ⟨fuel - 1, by omega⟩
  have hstart := hnumber.head.append ('.' :: (name ++ cs))
  have hskip := skipTrivia_of_startsNumber hstart o false
  have hkind := scanKind_of_startsNumber hstart d o
  rcases scanNumber_fused hnumber.head hdigits hname hcs o with ⟨fault, hscan⟩ | ⟨y, u, o', hscan, hsuffix, hu, hgap⟩
  · rw [hscan] at hkind
    simp only [Stream.scan, scanToken, hskip, hkind, Except.map] at h
    exact h.elim
  · rw [hscan] at hkind
    simp only [Stream.scan, scanToken, hskip, hkind, Except.map, isEof, Bool.false_eq_true, if_false] at h ⊢
    have hparts : ∀ c ∈ u, isWordPart c = true := fun c hc => hname c (hsuffix.subset hc)
    have hlength : (u ++ cs).length < fuel := by
      have hle := hsuffix.length_le
      simp only [List.length_append, List.length_cons] at hfuel ⊢
      omega
    obtain ⟨fuel', o'', hfuel', hfinished, hdots⟩ := scan_leftover hparts hu hgap hcs.1 hlength h
    refine ⟨fuel', o'', hfuel', hfinished, ?_⟩
    simp only [Stream.dots, Kind.isDot, Bool.toNat_false, Nat.zero_add]
    exact hdots

theorem isWordPart_of_isWord {cs : List Char} (h : IsWord cs) : ∀ c ∈ cs, isWordPart c = true := by
  obtain ⟨c, rest, rfl, hhead, hrest⟩ := h
  intro x hx
  rcases List.mem_cons.1 hx with rfl | hx
  · exact isWordPart_of_isWordHead hhead
  · exact hrest x hx

/-- If the whole text scans, its tokens have all points of the pieces but one for each place where digits stand in
front of a point and a word. -/
theorem Lays.dots_eq {d d' : Depths} {ps : List Piece} {cs : List Char} {n : Nat} (h : Lays d ps cs d' n) {fuel o : Nat}
    (hfuel : (chars ps ++ cs).length < fuel) (hscan : (Stream.scan fuel d ⟨chars ps ++ cs, o⟩).Finished) :
    ∃ fuel' o', cs.length < fuel' ∧ (Stream.scan fuel' d' ⟨cs, o'⟩).Finished ∧
      (Stream.scan fuel d ⟨chars ps ++ cs, o⟩).dots + n =
        dotsOf (lexemes ps) + (Stream.scan fuel' d' ⟨cs, o'⟩).dots := by
  induction h generalizing fuel o with
  | nil d cs => exact ⟨fuel, o, hfuel, hscan, by simp [lexemes, dotsOf, chars]⟩
  | @blank d d' ps cs n _ ih =>
      simp only [chars, List.cons_append, List.length_cons] at hfuel hscan ⊢
      rcases scan_blank fuel d (chars ps ++ cs) o with heq | rfl
      · rw [heq] at hscan ⊢
        exact ih (by omega) hscan
      · omega
  | @lexeme l d mid d' ps cs n scans _ ih =>
      simp only [chars, List.append_assoc, List.length_append] at hfuel hscan ⊢
      have hlength : 0 < l.chars.length := List.length_pos_iff.2 scans.ne_nil
      obtain ⟨fuel, rfl⟩ : ∃ k, fuel = k + 1 := ⟨fuel - 1, by omega⟩
      rw [scan_of_scans scans] at hscan ⊢
      obtain ⟨fuel', o', hfuel', hfinished, hdots⟩ := @ih fuel _ (by rw [List.length_append]; omega) hscan
      refine ⟨fuel', o', hfuel', hfinished, ?_⟩
      simp only [Stream.dots, lexemes, dotsOf_cons]
      omega
  | @fused x raw name d d' ps cs n number digits word clear _ ih =>
      have htext : chars (.lexeme (.number x raw) :: .lexeme (.mark .dot) :: .lexeme (.word name) :: ps) ++ cs =
          raw ++ '.' :: (name.toList ++ (chars ps ++ cs)) := by
        have hdot : (Lexeme.mark .dot).chars = ['.'] := rfl
        simp [chars, Lexeme.number, Lexeme.word, hdot]
      rw [htext] at hfuel hscan ⊢
      obtain ⟨fuel₁, o₁, hfuel₁, hfinished₁, hdots₁⟩ := scan_fused number digits (isWordPart_of_isWord word) clear
        hfuel hscan
      obtain ⟨fuel', o', hfuel', hfinished, hdots⟩ := ih hfuel₁ hfinished₁
      refine ⟨fuel', o', hfuel', hfinished, ?_⟩
      have hcount : dotsOf (lexemes (.lexeme (.number x raw) :: .lexeme (.mark .dot) :: .lexeme (.word name) :: ps)) =
          1 + dotsOf (lexemes ps) := by
        simp only [lexemes, dotsOf_cons]
        show 0 + (1 + ((wordKind name).isDot.toNat + dotsOf (lexemes ps))) = 1 + dotsOf (lexemes ps)
        simp [isDot_wordKind]
      rw [hcount, hdots₁]
      omega

end FieldScript.Token
