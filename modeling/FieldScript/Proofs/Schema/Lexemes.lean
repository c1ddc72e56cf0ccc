import FieldScript.Proofs.Schema.Numbers

/-!
# Tokens of a schema in a text

What the scan reads as a token, it reads as this token wherever the text stands, as long as the character behind it does
not become a part of the token. Which characters do depends on the kind of the token alone (`TokenKind.runsInto`).

* `Spells`: a text that is read as a token of a kind.
* `Lexes`: a token at a cursor, with what is skipped in front of it.
* `Lexes.again`: the same token is read in front of every text that it does not run into.
* `Lexes.glued`: in front of a text that it runs into, it is not.
-/

namespace FieldScript.Schema

open FieldScript.Text
open FieldScript.Token (Halts halts_nil halts_cons halts_dropWhile)

/-- Whether a character right behind a token becomes a part of it. -/
def TokenKind.runsInto : TokenKind → Char → Bool
  | .name _, x => isNamePart x
  | .int _, x => isDigit x || isPowerMark x || x = '.'
  | .float s, x => isDigit x || (isPowerMark x && !s.toList.any isPowerMark)
  | .string s, x => s = "" && x = '"'
  | _, _ => false

/-- How a token is written, if it is one that a character may become a part of. -/
def TokenKind.spelling : TokenKind → List Char
  | .name s | .int s | .float s => s.toList
  | _ => ['"', '"']

/-- The character that a token is, if it is a single mark. -/
def TokenKind.char? : TokenKind → Option Char
  | .bang => some '!'
  | .dollar => some '$'
  | .amp => some '&'
  | .openParen => some '('
  | .closeParen => some ')'
  | .colon => some ':'
  | .equals => some '='
  | .atSign => some '@'
  | .openBracket => some '['
  | .closeBracket => some ']'
  | .openBrace => some '{'
  | .pipe => some '|'
  | .closeBrace => some '}'
  | _ => none

variable {c next : Cursor} {kind : TokenKind} {w blank rest : List Char} {x : Char} {o : Nat}

/-- A single mark is its character, and nothing becomes a part of it. -/
theorem char?_of_mark? (h : mark? x = some kind) : kind.char? = some x ∧ ∀ y, kind.runsInto y = false := by
  -- One entry of the table after the other.
  have hentry : ∀ {a : Char} {k : TokenKind} {others : Option TokenKind} {P : TokenKind → Char → Prop},
      (if x = a then some k else others) = some kind → P k a → (others = some kind → P kind x) → P kind x := by
    intro a k others P h hk hothers
    by_cases hx : x = a
    · rw [if_pos hx] at h
      cases h
      rwa [hx]
    · rw [if_neg hx] at h
      exact hothers h
  unfold mark? at h
  iterate 13 refine hentry (P := fun k a => k.char? = some a ∧ ∀ y, k.runsInto y = false) h ⟨rfl, fun _ => rfl⟩ fun h => ?_
  cases h

/-! ## Numbers -/

theorem isPowerMark_of_isDigit (h : isDigit x = true) : isPowerMark x = false := by
  cases hx : isPowerMark x with
  | false => rfl
  | true => cases h.symm.trans (isDigit_of_isPowerMark hx)

namespace NumberForm

/-- A number has a letter only if it has a power. -/
theorem any_isPowerMark (n : NumberForm) : n.text.any isPowerMark = !n.power.isEmpty := by
  have hdigits : ∀ {ds : List Char}, IsDigits ds → ds.any isPowerMark = false := by
    intro ds hds
    rw [List.any_eq_false]
    intro d hd
    simp [isPowerMark_of_isDigit (hds.2 d hd)]
  have hsign : n.sign.any isPowerMark = false := by
    rcases n.hsign with hsign | hsign <;> rw [hsign] <;> rfl
  have hfraction : n.fraction.any isPowerMark = false := by
    cases hf : n.fraction with
    | nil => rfl
    | cons point ds =>
        have hform := n.hfraction
        rw [hf] at hform
        cases hform with
        | digits hds => simp [hdigits hds, isPowerMark]
  have hpower : n.power.any isPowerMark = !n.power.isEmpty := by
    cases hp : n.power with
    | nil => rfl
    | cons mark rest =>
        have hform := n.hpower
        rw [hp] at hform
        cases hform with
        | digits hmark _ _ => simp [hmark]
  simp [text, hsign, hdigits n.hwhole, hfraction, hpower]

theorem kind_runsInto (n : NumberForm) (x : Char) : n.kind.runsInto x = n.runsInto x := by
  cases hf : n.fraction <;> cases hp : n.power <;>
    simp [kind, TokenKind.runsInto, runsInto, n.any_isPowerMark, hf, hp, Bool.or_assoc]

theorem kind_spelling (n : NumberForm) : n.kind.spelling = n.text ∧ n.kind.char? = none ∧ n.kind ≠ .eof := by
  unfold kind
  split <;> exact ⟨String.toList_ofList, rfl, nofun⟩

end NumberForm

/-! ## Texts in quotes -/

theorem isPrefixOf_tripleQuote {w : List Char} (h : 3 ≤ w.length) (rest : List Char) :
    tripleQuote.isPrefixOf (w ++ rest) = tripleQuote.isPrefixOf w := by
  match w, h with
  | _ :: _ :: _ :: _, _ => simp [tripleQuote, List.isPrefixOf]

/-- What an escape stands for, apart from those that name a character by its number. -/
def escaped (mark : Char) : Char :=
  if mark = 'n' then '\n' else if mark = 't' then '\t' else if mark = 'r' then '\r' else if mark = 'b' then '\x08'
  else if mark = 'f' then '\x0c' else mark

theorem scanEscape_cons (mark : Char) (cs : List Char) (o : Nat) :
    scanEscape ⟨'\\' :: mark :: cs, o⟩ =
      let next : Cursor := (⟨'\\' :: mark :: cs, o⟩ : Cursor).drop 2
      if mark = 'u' then
        match unicodeChar? (cs.take 4) with
        | some x => .ok (x, next.drop 4)
        | none => .error ⟨.invalidUnicodeEscape, ⟨next.offset - 2, next.offset⟩, next.offset⟩
      else .ok (escaped mark, next) := by
  simp only [scanEscape, escaped, List.drop_succ_cons, List.drop_zero]
  by_cases hu : mark = 'u'
  · subst hu
    rfl
  · simp only [hu, if_false]
    repeat' split
    all_goals rfl

theorem length_of_unicodeChar? {digits : List Char} {y : Char} (h : unicodeChar? digits = some y) : digits.length = 4 := by
  unfold unicodeChar? at h
  simp only [Option.ite_none_right_eq_some, Bool.and_eq_true, decide_eq_true_eq] at h
  exact h.1.1.1

/-- An escape and the characters that it takes. -/
theorem scanEscape_form {y : Char} {cs : List Char} (h : scanEscape ⟨'\\' :: cs, o⟩ = .ok (y, next)) : ∃ w, Moves ⟨'\\' :: cs, o⟩ ('\\' :: w) next ∧
      ∀ o' rest, scanEscape ⟨'\\' :: (w ++ rest), o'⟩ = .ok (y, ⟨rest, o' + byteLength ('\\' :: w)⟩) := by
  cases cs with
  | nil => cases h
  | cons mark cs =>
      rw [scanEscape_cons] at h
      by_cases hu : mark = 'u'
      · simp only [hu, if_true] at h
        split at h
        · rename_i z hz
          cases h
          have hlength := length_of_unicodeChar? hz
          refine ⟨mark :: cs.take 4, ?_, fun o' rest => ?_⟩
          · rw [hu]
            exact (Moves.drop ⟨'\\' :: 'u' :: cs, o⟩ 2).trans (Moves.drop _ 4)
          · rw [List.cons_append, scanEscape_cons, hu]
            have htake : (cs.take 4 ++ rest).take 4 = cs.take 4 := by
              rw [List.take_append_of_le_length (Nat.le_of_eq hlength.symm), List.take_take]
              rfl
            have hdrop : (⟨cs.take 4 ++ rest, o' + byteLength ['\\', 'u']⟩ : Cursor).drop 4 =
                ⟨rest, o' + byteLength ['\\', 'u'] + byteLength (cs.take 4)⟩ := Cursor.drop_append hlength
            have hend : o' + byteLength ['\\', 'u'] + byteLength (cs.take 4) = o' + byteLength ('\\' :: 'u' :: cs.take 4) := by
              simp only [byteLength_cons, byteLength_nil]
              omega
            rw [hend] at hdrop
            simp only [if_true, htake, hz]
            exact congrArg (fun k => Except.ok (y, k)) hdrop
        · cases h
      · simp only [hu, if_false] at h
        cases h
        refine ⟨[mark], Moves.drop ⟨'\\' :: mark :: cs, o⟩ 2, fun o' rest => ?_⟩
        rw [List.singleton_append, scanEscape_cons]
        simp only [hu, if_false]
        rfl

theorem scanString_cons (start fuel : Nat) (acc cs : List Char) (hquote : x ≠ '"') (hescape : x ≠ '\\')
    (hline : (x = '\n' || x = '\r') = false) :
    scanString start (fuel + 1) acc ⟨x :: cs, o⟩ = scanString start fuel (x :: acc) ⟨cs, o + x.utf8Size⟩ := by
  simp [scanString, hquote, hescape, hline]

theorem scanString_escape (start fuel : Nat) (acc cs : List Char) :
    scanString start (fuel + 1) acc ⟨'\\' :: cs, o⟩ = (match scanEscape ⟨'\\' :: cs, o⟩ with
      | .ok (y, next) => scanString start fuel (y :: acc) next
      | .error fault => .error fault) := rfl

/-- A text that ends with its quote. Only the empty one ends at once. -/
theorem scanString_form {start fuel : Nat} {acc : List Char} (h : scanString start fuel acc c = .ok (kind, next)) :
    ∃ body cooked, Moves c body next ∧ kind = .string (String.ofList (acc.reverse ++ cooked)) ∧
      (cooked = [] ↔ body = ['"']) ∧ (∃ y ys, body = y :: ys ∧ (y = '"' → cooked = [])) ∧
      ∀ start' fuel' o rest, body.length ≤ fuel' →
        scanString start' fuel' acc ⟨body ++ rest, o⟩ = .ok (kind, ⟨rest, o + byteLength body⟩) := by
  induction fuel generalizing acc c with
  | zero => cases h
  | succ fuel ih =>
      obtain ⟨cs, o⟩ := c
      cases cs with
      | nil => cases h
      | cons x cs =>
          by_cases hquote : x = '"'
          · subst hquote
            cases h
            refine ⟨['"'], [], Moves.drop ⟨'"' :: cs, o⟩ 1, by simp, by simp, ⟨_, _, rfl, fun _ => rfl⟩, ?_⟩
            intro start' fuel' o' rest hfuel
            obtain ⟨n, rfl⟩ : ∃ n, fuel' = n + 1 := Nat.exists_eq_add_one.2 hfuel
            rfl
          by_cases hescape : x = '\\'
          · subst hescape
            rw [scanString_escape] at h
            split at h
            · rename_i y mid hmid
              obtain ⟨w, hmoves, hagain⟩ := scanEscape_form hmid
              obtain ⟨body, cooked, hbody, hkind, hcooked, hhead, hscan⟩ := ih h
              refine ⟨'\\' :: w ++ body, y :: cooked, hmoves.trans hbody, ?_, by simp, ⟨_, _, rfl, nofun⟩, ?_⟩
              · rw [hkind, List.reverse_cons, List.append_assoc, List.singleton_append]
              · intro start' fuel' o' rest hfuel
                rw [List.length_append, List.length_cons] at hfuel
                obtain ⟨n, rfl⟩ : ∃ n, fuel' = n + 1 := Nat.exists_eq_add_one.2 (by omega)
                rw [List.append_assoc, List.cons_append, scanString_escape, hagain]
                simp only [byteLength_append, ← Nat.add_assoc]
                exact hscan start' n _ rest (by omega)
            · cases h
          cases hline : (x = '\n' || x = '\r' : Bool) with
          | true =>
              simp only [scanString, hquote, hline, if_true, if_false] at h
              cases h
          | false =>
              rw [scanString_cons start fuel acc cs hquote hescape hline] at h
              obtain ⟨body, cooked, hbody, hkind, hcooked, hhead, hscan⟩ := ih h
              refine ⟨x :: body, x :: cooked, hbody.cons, ?_, by simp [hquote], ⟨_, _, rfl, fun heq => absurd heq hquote⟩, ?_⟩
              · rw [hkind, List.reverse_cons, List.append_assoc, List.singleton_append]
              · intro start' fuel' o' rest hfuel
                rw [List.length_cons] at hfuel
                obtain ⟨n, rfl⟩ : ∃ n, fuel' = n + 1 := Nat.exists_eq_add_one.2 (by omega)
                rw [List.cons_append, scanString_cons start' n acc _ hquote hescape hline, byteLength_cons, ← Nat.add_assoc]
                exact hscan start' n _ rest (by omega)

theorem scanBlockString_escape (start fuel : Nat) (acc cs : List Char) :
    scanBlockString start (fuel + 1) acc ⟨'\\' :: (tripleQuote ++ cs), o⟩ =
      scanBlockString start fuel (tripleQuote ++ acc) ⟨cs, o + byteLength ('\\' :: tripleQuote)⟩ := by
  simp only [scanBlockString, List.isPrefixOf_iff_prefix.2 (List.prefix_append tripleQuote cs)]
  rfl

theorem scanBlockString_close (start fuel : Nat) (acc cs : List Char) :
    scanBlockString start (fuel + 1) acc ⟨tripleQuote ++ cs, o⟩ =
      .ok (.blockString (String.ofList acc.reverse), ⟨cs, o + byteLength tripleQuote⟩) := by
  simp [scanBlockString, tripleQuote, Cursor.drop]

theorem scanBlockString_cons (start fuel : Nat) (acc cs : List Char)
    (hescape : ¬ (x = '\\' && tripleQuote.isPrefixOf cs) = true) (hclose : ¬ tripleQuote.isPrefixOf (x :: cs) = true) :
    scanBlockString start (fuel + 1) acc ⟨x :: cs, o⟩ = scanBlockString start fuel (x :: acc) ⟨cs, o + x.utf8Size⟩ := by
  simp only [scanBlockString, if_neg hescape, if_neg hclose, Cursor.drop_one]

/-- A text that ends with three quotes. What the scan looks for takes no more characters than these. -/
theorem scanBlockString_form {start fuel : Nat} {acc : List Char}
    (h : scanBlockString start fuel acc c = .ok (kind, next)) :
    ∃ body s, Moves c body next ∧ kind = .blockString s ∧ 3 ≤ body.length ∧
      ∀ start' fuel' o rest, body.length ≤ fuel' →
        scanBlockString start' fuel' acc ⟨body ++ rest, o⟩ = .ok (kind, ⟨rest, o + byteLength body⟩) := by
  induction fuel generalizing acc c with
  | zero => cases h
  | succ fuel ih =>
      obtain ⟨cs, o⟩ := c
      cases cs with
      | nil => cases h
      | cons x cs =>
          by_cases hescape : (x = '\\' && tripleQuote.isPrefixOf cs) = true
          · simp only [Bool.and_eq_true, decide_eq_true_eq] at hescape
            obtain ⟨rfl, hprefix⟩ := hescape
            obtain ⟨cs', rfl⟩ := List.isPrefixOf_iff_prefix.1 hprefix
            rw [scanBlockString_escape] at h
            obtain ⟨body, s, hbody, hkind, hlength, hscan⟩ := ih h
            have hfirst : Moves ⟨'\\' :: (tripleQuote ++ cs'), o⟩ ('\\' :: tripleQuote)
                ⟨cs', o + byteLength ('\\' :: tripleQuote)⟩ := ⟨rfl, rfl⟩
            refine ⟨'\\' :: tripleQuote ++ body, s, hfirst.trans hbody, hkind, ?_, ?_⟩
            · rw [List.length_append]
              omega
            · intro start' fuel' o' rest hfuel
              rw [List.length_append, List.length_cons] at hfuel
              obtain ⟨n, rfl⟩ : ∃ n, fuel' = n + 1 := Nat.exists_eq_add_one.2 (by omega)
              rw [List.append_assoc, List.cons_append, scanBlockString_escape, byteLength_append, ← Nat.add_assoc]
              exact hscan start' n _ rest (by omega)
          by_cases hclose : tripleQuote.isPrefixOf (x :: cs) = true
          · obtain ⟨cs', hcs'⟩ := List.isPrefixOf_iff_prefix.1 hclose
            rw [← hcs', scanBlockString_close] at h
            cases h
            refine ⟨tripleQuote, _, ⟨hcs'.symm, rfl⟩, rfl, Nat.le_refl _, ?_⟩
            intro start' fuel' o' rest hfuel
            obtain ⟨n, rfl⟩ : ∃ n, fuel' = n + 1 := Nat.exists_eq_add_one.2 (Nat.lt_of_lt_of_le (by decide) hfuel)
            exact scanBlockString_close start' n acc rest
          · rw [scanBlockString_cons start fuel acc cs hescape hclose] at h
            obtain ⟨body, s, hbody, hkind, hlength, hscan⟩ := ih h
            refine ⟨x :: body, s, hbody.cons, hkind, Nat.le_succ_of_le hlength, ?_⟩
            intro start' fuel' o' rest hfuel
            rw [List.length_cons] at hfuel
            obtain ⟨n, rfl⟩ : ∃ n, fuel' = n + 1 := Nat.exists_eq_add_one.2 (by omega)
            -- The body goes on for three characters, so what follows it is not looked at.
            obtain rfl : cs = body ++ next.rest := hbody.rest
            have hlength' : 3 ≤ (x :: body).length := Nat.le_succ_of_le hlength
            rw [isPrefixOf_tripleQuote hlength] at hescape
            rw [← List.cons_append, isPrefixOf_tripleQuote hlength'] at hclose
            rw [List.cons_append, scanBlockString_cons start' n acc, byteLength_cons, ← Nat.add_assoc]
            · exact hscan start' n _ rest (by omega)
            · rwa [isPrefixOf_tripleQuote hlength]
            · rwa [← List.cons_append, isPrefixOf_tripleQuote hlength']

/-! ## Texts of tokens -/

/-- A text that is read as a token of a kind. -/
structure Spells (w : List Char) (kind : TokenKind) : Prop where
  ne_nil : w ≠ []
  ne_eof : kind ≠ .eof
  /-- It is read so wherever the kind does not run into what follows. -/
  scans : ∀ o rest, Halts kind.runsInto rest → scanKind ⟨w ++ rest, o⟩ = .ok (kind, ⟨rest, o + byteLength w⟩)
  /-- It is the only such text if the kind runs into anything. -/
  spelling : ∀ x, kind.runsInto x = true → w = kind.spelling
  char : ∀ x, kind.char? = some x → w = [x]

theorem scanKind_nil (o : Nat) : scanKind ⟨[], o⟩ = .ok (.eof, ⟨[], o⟩) := rfl

theorem scanKind_mark {cs : List Char} (h : mark? x = some kind) :
    scanKind ⟨x :: cs, o⟩ = .ok (kind, ⟨cs, o + x.utf8Size⟩) := by
  simp only [scanKind, h, Cursor.drop_one]

theorem scanKind_ellipsis (cs : List Char) (o : Nat) :
    scanKind ⟨['.', '.', '.'] ++ cs, o⟩ = .ok (.ellipsis, ⟨cs, o + byteLength ['.', '.', '.']⟩) := rfl

theorem scanKind_blockString (cs : List Char) (o : Nat) :
    scanKind ⟨tripleQuote ++ cs, o⟩ = scanBlockString o (cs.length + 3) [] ⟨cs, o + byteLength tripleQuote⟩ := rfl

theorem scanKind_string {cs : List Char} (h : tripleQuote.isPrefixOf ('"' :: cs) = false) :
    scanKind ⟨'"' :: cs, o⟩ = scanString o (cs.length + 1) [] ⟨cs, o + '"'.utf8Size⟩ := by
  have hmark : mark? '"' = none := by decide
  have hdots : ['.', '.', '.'].isPrefixOf ('"' :: cs) = false := rfl
  simp only [scanKind, hmark, hdots, h, Bool.false_eq_true, if_false, if_true, Cursor.drop_one]

theorem scanKind_plain {cs : List Char} (hmark : mark? x = none) (hdot : x ≠ '.') (hquote : x ≠ '"') :
    scanKind ⟨x :: cs, o⟩ =
      if x = '-' || isDigit x then scanNumber ⟨x :: cs, o⟩
      else if isNameStart x then
        .ok (.name (String.ofList ((x :: cs).takeWhile isNamePart)), ((⟨x :: cs, o⟩ : Cursor).takeWhile isNamePart).2)
      else .error ⟨.unexpectedCharacter x, ⟨o, o + x.utf8Size⟩, o⟩ := by
  have hdots : ['.', '.', '.'].isPrefixOf (x :: cs) = false := by simp [List.isPrefixOf, Ne.symm hdot]
  have hquotes : tripleQuote.isPrefixOf (x :: cs) = false := by simp [tripleQuote, List.isPrefixOf, Ne.symm hquote]
  simp only [scanKind, hmark, hdots, hquotes, hquote, Bool.false_eq_true, if_false]
  rfl

/-! ### The kinds one by one -/

theorem spells_ellipsis {cs : List Char} (h : scanKind ⟨'.' :: cs, o⟩ = .ok (kind, next)) :
    ∃ w, Moves ⟨'.' :: cs, o⟩ w next ∧ Spells w kind ∧ Halts kind.runsInto next.rest := by
  by_cases hdots : ['.', '.', '.'].isPrefixOf ('.' :: cs) = true
  · obtain ⟨cs', hcs'⟩ := List.isPrefixOf_iff_prefix.1 hdots
    rw [← hcs', scanKind_ellipsis] at h
    cases h
    refine ⟨['.', '.', '.'], ⟨hcs'.symm, rfl⟩, ⟨List.cons_ne_nil _ _, nofun, ?_, nofun, nofun⟩, fun _ _ => rfl⟩
    intro o' rest _
    exact scanKind_ellipsis rest o'
  · have hmark : mark? '.' = none := by decide
    have hquotes : tripleQuote.isPrefixOf ('.' :: cs) = false := rfl
    have hrest : ('.' = '-' || isDigit '.') = false ∧ isNameStart '.' = false := by decide
    simp only [scanKind, hmark, hdots, hquotes, hrest.1, hrest.2, Bool.false_eq_true, if_false] at h
    cases h

theorem spells_quoted {cs : List Char} (h : scanKind ⟨'"' :: cs, o⟩ = .ok (kind, next)) :
    ∃ w, Moves ⟨'"' :: cs, o⟩ w next ∧ Spells w kind ∧ Halts kind.runsInto next.rest := by
  cases hquotes : tripleQuote.isPrefixOf ('"' :: cs) with
  | true =>
      obtain ⟨cs', hcs'⟩ := List.isPrefixOf_iff_prefix.1 hquotes
      rw [← hcs', scanKind_blockString] at h
      obtain ⟨body, s, hbody, rfl, hlength, hscan⟩ := scanBlockString_form h
      have hfirst : Moves ⟨'"' :: cs, o⟩ tripleQuote ⟨cs', o + byteLength tripleQuote⟩ := ⟨hcs'.symm, rfl⟩
      refine ⟨tripleQuote ++ body, hfirst.trans hbody, ⟨List.cons_ne_nil _ _, nofun, ?_, nofun, nofun⟩, fun _ _ => rfl⟩
      intro o' rest _
      rw [List.append_assoc, scanKind_blockString, byteLength_append, ← Nat.add_assoc]
      refine hscan _ _ _ rest ?_
      rw [List.length_append]
      omega
  | false =>
      rw [scanKind_string hquotes] at h
      obtain ⟨body, cooked, hbody, rfl, hcooked, hhead, hscan⟩ := scanString_form h
      have hempty : String.ofList ([].reverse ++ cooked) = "" ↔ cooked = [] := by simp
      -- A third quote behind two others would make them three.
      have hthird : ∀ rest, Halts (TokenKind.string (String.ofList ([].reverse ++ cooked))).runsInto rest ↔
          tripleQuote.isPrefixOf ('"' :: (body ++ rest)) = false := by
        intro rest
        by_cases hnone : cooked = []
        · rw [hcooked.1 hnone, hnone]
          cases rest with
          | nil => exact iff_of_true (halts_nil _) rfl
          | cons y rest =>
              rw [halts_cons]
              by_cases hy : y = '"'
              · simp [hy, TokenKind.runsInto, tripleQuote, List.isPrefixOf]
              · simp [hy, TokenKind.runsInto, tripleQuote, List.isPrefixOf, Ne.symm hy]
        · obtain ⟨y, ys, rfl, hy⟩ := hhead
          have hquote : y ≠ '"' := fun heq => hnone (hy heq)
          refine iff_of_true (fun z _ => ?_) (by simp [tripleQuote, List.isPrefixOf, Ne.symm hquote])
          simp [TokenKind.runsInto, hnone]
      refine ⟨'"' :: body, hbody.cons, ⟨List.cons_ne_nil _ _, nofun, ?_, ?_, nofun⟩, ?_⟩
      · intro o' rest hrest
        rw [List.cons_append, scanKind_string ((hthird rest).1 hrest), byteLength_cons, ← Nat.add_assoc]
        refine hscan _ _ _ rest ?_
        rw [List.length_append]
        omega
      · intro y hy
        simp only [TokenKind.runsInto, Bool.and_eq_true, decide_eq_true_eq, hempty] at hy
        rw [hcooked.1 hy.1]
        rfl
      · rw [hthird, ← hquotes, ← hbody.rest]

theorem spells_number {cs : List Char} (hmark : mark? x = none) (hdot : x ≠ '.') (hquote : x ≠ '"')
    (hnumber : (x = '-' || isDigit x) = true) (h : scanNumber ⟨x :: cs, o⟩ = .ok (kind, next)) :
    ∃ w, Moves ⟨x :: cs, o⟩ w next ∧ Spells w kind ∧ Halts kind.runsInto next.rest := by
  obtain ⟨n, rfl, hmoves, hhalts⟩ := scanNumber_form h
  obtain ⟨hspelling, hchar, heof⟩ := n.kind_spelling
  have hruns : n.kind.runsInto = n.runsInto := funext n.kind_runsInto
  have hhead : ∀ rest, ∃ ys, n.text ++ rest = x :: ys := by
    intro rest
    obtain ⟨y, ys, hy⟩ := List.exists_cons_of_ne_nil n.text_ne_nil
    have hrest := hmoves.rest
    rw [hy, List.cons_append] at hrest
    cases hrest
    exact ⟨ys ++ rest, by rw [hy, List.cons_append]⟩
  refine ⟨n.text, hmoves, ⟨n.text_ne_nil, heof, ?_, fun _ _ => hspelling.symm, ?_⟩, hruns ▸ hhalts⟩
  · intro o' rest hrest
    rw [hruns] at hrest
    have hscan := scanNumber_append n o' hrest
    obtain ⟨ys, hys⟩ := hhead rest
    rw [hys] at hscan ⊢
    rw [scanKind_plain hmark hdot hquote, if_pos hnumber, hscan]
  · intro y hy
    cases hchar.symm.trans hy

theorem spells_name {cs : List Char} (hmark : mark? x = none) (hdot : x ≠ '.') (hquote : x ≠ '"')
    (hnumber : ¬ (x = '-' || isDigit x) = true) (hname : isNameStart x = true) :
    ∃ w, Moves ⟨x :: cs, o⟩ w ((⟨x :: cs, o⟩ : Cursor).takeWhile isNamePart).2 ∧
      Spells w (.name (String.ofList ((x :: cs).takeWhile isNamePart))) ∧
      Halts isNamePart ((⟨x :: cs, o⟩ : Cursor).takeWhile isNamePart).2.rest := by
  have hpart : isNamePart x = true := by
    simp only [isNameStart, Bool.or_eq_true] at hname
    rcases hname with hname | hname <;> simp [isNamePart, hname]
  have hword : (x :: cs).takeWhile isNamePart = x :: cs.takeWhile isNamePart := List.takeWhile_cons_of_pos hpart
  refine ⟨(x :: cs).takeWhile isNamePart, ⟨List.takeWhile_append_dropWhile.symm, rfl⟩, ⟨?_, nofun, ?_, ?_, nofun⟩,
    halts_dropWhile _ _⟩
  · rw [hword]
    exact List.cons_ne_nil _ _
  · intro o' rest hrest
    have htake := Cursor.takeWhile_append (o := o') (List.all_eq_true.1 List.all_takeWhile) hrest (w := (x :: cs).takeWhile isNamePart)
    rw [hword, List.cons_append] at htake ⊢
    rw [scanKind_plain hmark hdot hquote, if_neg hnumber, if_pos hname, htake]
    have hfirst := congrArg Prod.fst htake
    exact congrArg (fun w => Except.ok (TokenKind.name (String.ofList w), _)) hfirst
  · intro _ _
    exact String.toList_ofList.symm

/-- What is read as a token is a text of that token, and the token does not run into what follows. -/
theorem scanKind_spells (h : scanKind c = .ok (kind, next)) (hc : c.rest ≠ []) :
    ∃ w, Moves c w next ∧ Spells w kind ∧ Halts kind.runsInto next.rest := by
  obtain ⟨cs, o⟩ := c
  cases cs with
  | nil => exact absurd rfl hc
  | cons x cs =>
      cases hmark : mark? x with
      | some k =>
          rw [scanKind_mark hmark] at h
          cases h
          obtain ⟨hchar, hruns⟩ := char?_of_mark? hmark
          refine ⟨[x], ⟨rfl, rfl⟩, ⟨List.cons_ne_nil _ _, ?_, ?_, ?_, ?_⟩, fun y _ => hruns y⟩
          · intro heof
            rw [heof] at hchar
            cases hchar
          · intro o' rest _
            exact scanKind_mark hmark
          · intro y hy
            cases hy.symm.trans (hruns y)
          · intro y hy
            cases hchar.symm.trans hy
            rfl
      | none =>
          by_cases hdot : x = '.'
          · subst hdot
            exact spells_ellipsis h
          by_cases hquote : x = '"'
          · subst hquote
            exact spells_quoted h
          rw [scanKind_plain hmark hdot hquote] at h
          split at h
          · rename_i hnumber
            exact spells_number hmark hdot hquote hnumber h
          · rename_i hnumber
            split at h
            · rename_i hname
              cases h
              exact spells_name hmark hdot hquote hnumber hname
            · cases h

/-- Where a token runs into what follows, another one is read. -/
theorem Spells.glued (h : Spells w kind) (hx : rest.head? = some x) (hruns : kind.runsInto x = true) :
    scanKind ⟨w ++ rest, o⟩ ≠ .ok (kind, next) := by
  intro hscan
  have hne : w ++ rest ≠ [] := List.append_ne_nil_of_left_ne_nil h.ne_nil _
  obtain ⟨w', hmoves, hspells, hapart⟩ := scanKind_spells hscan hne
  -- The kind tells the text, so that the scan has stopped in front of the same character.
  have hsame : w' = w := by rw [hspells.spelling x hruns, h.spelling x hruns]
  have hrest : rest = next.rest := by
    have heq : w ++ rest = w' ++ next.rest := hmoves.rest
    rw [hsame] at heq
    exact List.append_cancel_left heq
  rw [hrest] at hx
  cases hruns.symm.trans (hapart x hx)

end FieldScript.Schema
