import FieldScript.Schema.Lexer
import FieldScript.Proofs.Schema.Places

/-!
# Where the scan of a schema fails

A scan that fails stops at a place of the text, unless it meets a text in quotes that breaks off behind a backslash.
There it goes on behind the end of the text.

* `Halted`: a fault that leaves the scan at a place of the text.
* `Overruns`: a fault that leaves it behind the end.
* `scanToken_fault`: every fault is of one of these kinds, the second only where a text breaks off (`Cursor.Breaks`).
* `scanToken_broken`: wherever a text breaks off, the scan overruns it.
-/

namespace FieldScript.Schema

open FieldScript.Text

variable {c mid next : Cursor} {w body cs : List Char} {x : Char} {o start : Nat} {f : TokenFault}

/-! ## Faults -/

/-- A fault at a place of the text. Scanning goes on at a place of the text too. -/
structure Halted (start : Nat) (c : Cursor) (f : TokenFault) : Prop where
  cause : f.cause ≠ .overrun
  resumes : ∃ passed behind, Moves c passed ⟨behind, f.resume⟩
  starts : start ≤ f.span.start
  ordered : f.span.start ≤ f.span.stop
  /-- A digit may be missing right behind the end. -/
  within : f.span.stop ≤ c.offset + byteLength c.rest + 1

/-- A fault behind the end of the text. -/
structure Overruns (c : Cursor) (f : TokenFault) : Prop where
  cause : f.cause = .overrun
  resume : f.resume = c.offset + byteLength c.rest + 1

namespace Moves

theorem offset_le (h : Moves c w next) : c.offset ≤ next.offset := by
  rw [h.offset]
  exact Nat.le_add_right _ _

theorem end_eq (h : Moves c w next) : next.offset + byteLength next.rest = c.offset + byteLength c.rest := by
  rw [h.offset, h.rest, byteLength_append, Nat.add_assoc]

end Moves

namespace Halted

/-- A fault behind a text that is passed. -/
theorem behind (h : Moves c w mid) (hf : Halted start mid f) : Halted start c f := by
  obtain ⟨passed, behind, hpassed⟩ := hf.resumes
  exact ⟨hf.cause, ⟨w ++ passed, behind, h.trans hpassed⟩, hf.starts, hf.ordered, h.end_eq ▸ hf.within⟩

theorem mono {start' : Nat} (h : Halted start c f) (hle : start' ≤ start) : Halted start' c f :=
  { h with starts := Nat.le_trans hle h.starts }

/-- A fault that stretches up to the cursor, or one byte further. -/
theorem here {cause : TokenFault.Cause} {extra : Nat} (hcause : cause ≠ .overrun) (hstart : start ≤ c.offset)
    (hextra : extra ≤ 1) : Halted start c ⟨cause, ⟨start, c.offset + extra⟩, c.offset⟩ where
  cause := hcause
  resumes := ⟨[], c.rest, .refl c⟩
  starts := Nat.le_refl start
  ordered := Nat.le_trans hstart (Nat.le_add_right _ _)
  within := by
    show c.offset + extra ≤ c.offset + byteLength c.rest + 1
    omega

/-- A text that has not ended. -/
theorem unterminated (hstart : start ≤ c.offset) : Halted start c ⟨.unterminatedString, ⟨start, c.offset⟩, c.offset⟩ :=
  here (nofun : TokenFault.Cause.unterminatedString ≠ .overrun) hstart (Nat.zero_le 1)

end Halted

theorem Overruns.behind (h : Moves c w mid) (hf : Overruns mid f) : Overruns c f :=
  ⟨hf.cause, h.end_eq ▸ hf.resume⟩

/-! ## Numbers -/

/-- A computation in two parts that fails. -/
theorem exists_of_bind_error {ε α β : Type} {x : Except ε α} {k : α → Except ε β} {e : ε} (h : x >>= k = .error e) :
    x = .error e ∨ ∃ a, x = .ok a ∧ k a = .error e := by
  cases x with
  | error fault =>
      cases h
      exact .inl rfl
  | ok a => exact .inr ⟨a, rfl, h⟩

theorem scanDigits_fault {extra : Nat} (h : scanDigits start extra c = .error f) (hstart : start ≤ c.offset)
    (hextra : extra ≤ 1) : Halted start c f := by
  unfold scanDigits at h
  dsimp only at h
  split at h
  · cases h
    exact .here nofun hstart hextra
  · cases h

theorem scanFraction_fault (h : scanFraction start c = .error f) (hstart : start ≤ c.offset) : Halted start c f := by
  have hdrop := Moves.drop c 1
  unfold scanFraction at h
  split at h
  · exact .behind hdrop (scanDigits_fault h (Nat.le_trans hstart hdrop.offset_le) (Nat.zero_le 1))
  · cases h

theorem scanPower_fault (h : scanPower start c = .error f) (hstart : start ≤ c.offset) : Halted start c f := by
  have hmark := Moves.drop c 1
  unfold scanPower at h
  split at h
  · split at h
    · have hsign := hmark.trans (Moves.drop (c.drop 1) 1)
      exact .behind hsign (scanDigits_fault h (Nat.le_trans hstart hsign.offset_le) (Nat.zero_le 1))
    · exact .behind hmark (scanDigits_fault h (Nat.le_trans hstart hmark.offset_le) (Nat.zero_le 1))
  · cases h

theorem scanNumber_fault (h : scanNumber c = .error f) : Halted c.offset c f := by
  have hsigned : ∃ w, Moves c w (if c.rest.head? = some '-' then c.drop 1 else c) := by
    split
    · exact ⟨_, Moves.drop c 1⟩
    · exact ⟨_, .refl c⟩
  obtain ⟨sign, hsign⟩ := hsigned
  rw [scanNumber_eq] at h
  obtain hwhole | ⟨whole, hwhole, h⟩ := exists_of_bind_error h
  · exact .behind hsign (scanDigits_fault hwhole hsign.offset_le (Nat.le_refl 1))
  obtain ⟨ds, -, hmoves, hdigit⟩ := scanDigits_form hwhole
  have hwholeMoves := hsign.trans hmoves
  obtain hfraction | ⟨fraction, hfraction, h⟩ := exists_of_bind_error h
  · exact .behind hwholeMoves (scanFraction_fault hfraction hwholeMoves.offset_le)
  obtain ⟨fs, -, hmoves, -⟩ := scanFraction_form hfraction hdigit
  have hfractionMoves := hwholeMoves.trans hmoves
  obtain hpower | ⟨power, -, h⟩ := exists_of_bind_error h
  · exact .behind hfractionMoves (scanPower_fault hpower hfractionMoves.offset_le)
  · cases h

/-! ## Texts in quotes -/

/-- The inside of a text in quotes, read up to a place where it has not ended. -/
inductive Unclosed : List Char → Prop
  | nil : Unclosed []
  | char {x : Char} {body : List Char} (hquote : x ≠ '"') (hescape : x ≠ '\\')
      (hline : (x = '\n' || x = '\r') = false) (h : Unclosed body) : Unclosed (x :: body)
  | mark {x : Char} {body : List Char} (hcode : x ≠ 'u') (h : Unclosed body) : Unclosed ('\\' :: x :: body)
  | code {digits : List Char} {x : Char} {body : List Char} (hdigits : unicodeChar? digits = some x)
      (h : Unclosed body) : Unclosed ('\\' :: 'u' :: (digits ++ body))

/-- A text in quotes that breaks off behind the backslash of an escape, at the end of everything. -/
def Broken (cs : List Char) : Prop := ∃ body, Unclosed body ∧ cs = '"' :: (body ++ ['\\'])

/-- An escape that is read leaves the text open. -/
theorem scanEscape_unclosed {y : Char} (h : scanEscape ⟨'\\' :: cs, o⟩ = .ok (y, next)) (hbody : Unclosed body)
    (hrest : next.rest = body ++ ['\\']) : ∃ body', Unclosed body' ∧ '\\' :: cs = body' ++ ['\\'] := by
  cases cs with
  | nil => cases h
  | cons mark cs =>
      rw [scanEscape_cons] at h
      by_cases hu : mark = 'u'
      · simp only [hu, if_true] at h
        split at h
        · rename_i z hz
          cases h
          refine ⟨'\\' :: 'u' :: (cs.take 4 ++ body), .code hz hbody, ?_⟩
          have hdrop : cs.drop 4 = body ++ ['\\'] := hrest
          rw [hu, List.cons_append, List.cons_append, List.append_assoc, ← hdrop, List.take_append_drop]
        · cases h
      · simp only [hu, if_false] at h
        cases h
        refine ⟨'\\' :: mark :: body, .mark hu hbody, ?_⟩
        have hdrop : cs = body ++ ['\\'] := hrest
        rw [hdrop]
        rfl

theorem scanEscape_fault (h : scanEscape ⟨'\\' :: cs, o⟩ = .error f) (hstart : start ≤ o) :
    Halted start ⟨'\\' :: cs, o⟩ f ∨ Overruns ⟨'\\' :: cs, o⟩ f ∧ cs = [] := by
  cases cs with
  | nil =>
      cases h
      exact .inr ⟨⟨rfl, rfl⟩, rfl⟩
  | cons mark cs =>
      rw [scanEscape_cons] at h
      by_cases hu : mark = 'u'
      · simp only [hu, if_true] at h
        split at h
        · cases h
        · cases h
          subst hu
          refine .inl ⟨nofun, ⟨_, cs, Moves.drop ⟨'\\' :: 'u' :: cs, o⟩ 2⟩, hstart, Nat.sub_le _ _, ?_⟩
          show o + byteLength ['\\', 'u'] ≤ o + byteLength (['\\', 'u'] ++ cs) + 1
          rw [byteLength_append]
          omega
      · simp only [hu, if_false] at h
        cases h

theorem scanString_fault {fuel : Nat} {acc : List Char} (h : scanString start fuel acc c = .error f)
    (hstart : start ≤ c.offset) :
    Halted start c f ∨ Overruns c f ∧ ∃ body, Unclosed body ∧ c.rest = body ++ ['\\'] := by
  induction fuel generalizing acc c with
  | zero =>
      cases h
      exact .inl (.unterminated hstart)
  | succ fuel ih =>
      obtain ⟨cs, o⟩ := c
      cases cs with
      | nil =>
          cases h
          exact .inl (.unterminated hstart)
      | cons x cs =>
          by_cases hquote : x = '"'
          · subst hquote
            cases h
          by_cases hescape : x = '\\'
          · subst hescape
            rw [scanString_escape] at h
            split at h
            · rename_i y mid hmid
              obtain ⟨w, hmoves, -⟩ := scanEscape_form hmid
              obtain hhalted | ⟨hover, body, hbody, hrest⟩ := ih h (Nat.le_trans hstart hmoves.offset_le)
              · exact .inl (.behind hmoves hhalted)
              · exact .inr ⟨.behind hmoves hover, scanEscape_unclosed hmid hbody hrest⟩
            · rename_i fault hfault
              cases h
              obtain hhalted | ⟨hover, rfl⟩ := scanEscape_fault hfault hstart
              · exact .inl hhalted
              · exact .inr ⟨hover, [], .nil, rfl⟩
          cases hline : (x = '\n' || x = '\r' : Bool) with
          | true =>
              simp only [scanString, hquote, hline, if_true, if_false] at h
              cases h
              exact .inl (.unterminated hstart)
          | false =>
              rw [scanString_cons start fuel acc cs hquote hescape hline] at h
              have hmoves : Moves ⟨x :: cs, o⟩ [x] ⟨cs, o + x.utf8Size⟩ := ⟨rfl, rfl⟩
              obtain hhalted | ⟨hover, body, hbody, hrest⟩ := ih h (Nat.le_trans hstart hmoves.offset_le)
              · exact .inl (.behind hmoves hhalted)
              · exact .inr ⟨.behind hmoves hover, x :: body, .char hquote hescape hline hbody, congrArg (x :: ·) hrest⟩

/-- An open text is read up to the backslash behind it, and there the scan overruns the text. -/
theorem scanString_broken {fuel : Nat} {acc : List Char} (hbody : Unclosed body) (hfuel : body.length < fuel) :
    ∃ f, scanString start fuel acc ⟨body ++ ['\\'], o⟩ = .error f ∧ f.cause = .overrun := by
  induction hbody generalizing fuel acc o with
  | nil =>
      obtain ⟨n, rfl⟩ := Nat.exists_eq_add_one.2 hfuel
      exact ⟨_, rfl, rfl⟩
  | char hquote hescape hline _ ih =>
      rw [List.length_cons] at hfuel
      obtain ⟨n, rfl⟩ : ∃ n, fuel = n + 1 := Nat.exists_eq_add_one.2 (by omega)
      rw [List.cons_append, scanString_cons start n acc _ hquote hescape hline]
      exact ih (by omega)
  | mark hcode _ ih =>
      rw [List.length_cons, List.length_cons] at hfuel
      obtain ⟨n, rfl⟩ : ∃ n, fuel = n + 1 := Nat.exists_eq_add_one.2 (by omega)
      rw [List.cons_append, List.cons_append, scanString_escape, scanEscape_cons]
      simp only [hcode, if_false]
      exact ih (by omega)
  | @code digits y body hdigits _ ih =>
      rw [List.length_cons, List.length_cons, List.length_append] at hfuel
      obtain ⟨n, rfl⟩ : ∃ n, fuel = n + 1 := Nat.exists_eq_add_one.2 (by omega)
      have hlength := length_of_unicodeChar? hdigits
      have htake : (digits ++ (body ++ ['\\'])).take 4 = digits := List.take_left' hlength
      rw [List.cons_append, List.cons_append, List.append_assoc, scanString_escape, scanEscape_cons]
      simp only [if_true, htake, hdigits]
      have hdrop : ((⟨'\\' :: 'u' :: (digits ++ (body ++ ['\\'])), o⟩ : Cursor).drop 2).drop 4 =
          ⟨body ++ ['\\'], o + byteLength ['\\', 'u'] + byteLength digits⟩ := Cursor.drop_append hlength
      rw [hdrop]
      exact ih (by omega)

theorem scanBlockString_fault {fuel : Nat} {acc : List Char} (h : scanBlockString start fuel acc c = .error f)
    (hstart : start ≤ c.offset) : Halted start c f := by
  induction fuel generalizing acc c with
  | zero =>
      cases h
      exact .unterminated hstart
  | succ fuel ih =>
      obtain ⟨cs, o⟩ := c
      cases cs with
      | nil =>
          cases h
          exact .unterminated hstart
      | cons x cs =>
          simp only [scanBlockString] at h
          split at h
          · have hmoves := Moves.drop ⟨x :: cs, o⟩ 4
            exact .behind hmoves (ih h (Nat.le_trans hstart hmoves.offset_le))
          · split at h
            · cases h
            · have hmoves := Moves.drop ⟨x :: cs, o⟩ 1
              exact .behind hmoves (ih h (Nat.le_trans hstart hmoves.offset_le))

/-! ## Tokens -/

/-- An open text does not start with a quote, so that its own quote is not the first of three. -/
theorem Unclosed.isPrefixOf_tripleQuote (h : Unclosed body) : tripleQuote.isPrefixOf ('"' :: (body ++ ['\\'])) = false := by
  cases h with
  | nil => rfl
  | char hquote _ _ _ => simp [tripleQuote, List.isPrefixOf, Ne.symm hquote]
  | mark _ _ => rfl
  | code _ _ => rfl

theorem scanKind_fault (h : scanKind c = .error f) : Halted c.offset c f ∨ Overruns c f ∧ Broken c.rest := by
  obtain ⟨cs, o⟩ := c
  cases cs with
  | nil => cases h
  | cons x cs =>
      have hfirst : Moves ⟨x :: cs, o⟩ [x] ⟨cs, o + x.utf8Size⟩ := ⟨rfl, rfl⟩
      simp only [scanKind] at h
      split at h
      · cases h
      split at h
      · cases h
      split at h
      · have hquotes := Moves.drop ⟨x :: cs, o⟩ 3
        exact .inl (.behind hquotes (scanBlockString_fault h hquotes.offset_le))
      split at h
      · rename_i hquote
        subst hquote
        obtain hhalted | ⟨hover, body, hbody, hrest⟩ := scanString_fault h hfirst.offset_le
        · exact .inl (.behind hfirst hhalted)
        · exact .inr ⟨.behind hfirst hover, body, hbody, congrArg ('"' :: ·) hrest⟩
      split at h
      · exact .inl (scanNumber_fault h)
      split at h
      · cases h
      · cases h
        refine .inl ⟨(fun h => by cases h), ⟨[], x :: cs, .refl _⟩, Nat.le_refl o, Nat.le_add_right _ _, ?_⟩
        show o + x.utf8Size ≤ o + (x.utf8Size + byteLength cs) + 1
        omega

theorem scanKind_broken (h : Broken cs) : ∃ f, scanKind ⟨cs, o⟩ = .error f ∧ f.cause = .overrun := by
  obtain ⟨body, hbody, rfl⟩ := h
  rw [scanKind_string hbody.isPrefixOf_tripleQuote]
  refine scanString_broken hbody ?_
  rw [List.length_append]
  exact Nat.lt_succ_of_lt (Nat.lt_succ_self _)

/-- What stands behind the blanks at a cursor is a text in quotes that breaks off. -/
def Cursor.Breaks (c : Cursor) : Prop := ∃ blank broken, Ignored blank ∧ Broken broken ∧ c.rest = blank ++ broken

theorem Broken.solid (h : Broken cs) : skipIgnored false o cs = ⟨cs, o⟩ := by
  obtain ⟨body, -, rfl⟩ := h
  exact skipIgnored_solid (by decide) _

theorem scanToken_fault (h : scanToken c = .error f) : Halted c.offset c f ∨ Overruns c f ∧ c.Breaks := by
  obtain ⟨blank, hblank, -, hagain⟩ := skipIgnored_form false c.offset c.rest
  rw [scanToken_eq rfl] at h
  cases hkind : scanKind (skipIgnored false c.offset c.rest) with
  | ok found =>
      rw [hkind] at h
      cases h
  | error fault =>
      rw [hkind] at h
      cases h
      obtain hhalted | ⟨hover, hbroken⟩ := scanKind_fault hkind
      · exact .inl (.behind hblank (hhalted.mono hblank.offset_le))
      · refine .inr ⟨.behind hblank hover, blank, _, hagain ?_, hbroken, hblank.rest⟩
        obtain ⟨body, -, hbody⟩ := hbroken
        rw [hbody]
        exact List.cons_ne_nil _ _

theorem scanToken_broken (h : c.Breaks) : ∃ f, scanToken c = .error f ∧ f.cause = .overrun := by
  obtain ⟨blank, broken, hblank, hbroken, hrest⟩ := h
  have hskip : skipIgnored false c.offset c.rest = ⟨broken, c.offset + byteLength blank⟩ := by
    rw [hrest, hblank, hbroken.solid]
  obtain ⟨f, hkind, hcause⟩ := scanKind_broken hbroken (o := c.offset + byteLength blank)
  refine ⟨f, ?_, hcause⟩
  rw [scanToken_eq hskip, hkind]
  rfl

end FieldScript.Schema
