import FieldScript.Proofs.Parse.Twins
import FieldScript.Proofs.Token.Places

/-!
# The scan in front of a fence

The scan looks ahead of what it passes, but only to see whether a token goes on. Some characters go on with no token and
start no comment, such as brackets that close and blanks (`isBlunt`). So texts that are the same up to places in front of
such characters are scanned alike up to there, wherever they stand (`scanToken_alongside`).
-/

namespace FieldScript

open Text

namespace Token

/-- Characters that no token goes on with. No comment starts with one either. -/
def isBlunt (c : Char) : Bool :=
  !isWordPart c && !(['.', '?', '=', '>', '<', '+', '-', '*', '&', '|', '/'].contains c)

theorem isBlunt_of_isWordPart {c : Char} (h : isWordPart c = true) : isBlunt c = false := by
  rw [isBlunt, h]
  rfl

/-- Texts with which no token goes on: the end of a text, and what starts with a character of that kind. -/
abbrev Blunt (u : List Char) : Prop := Halts (fun c => !isBlunt c) u

theorem blunt_cons {c : Char} {u : List Char} (h : isBlunt c = true) : Blunt (c :: u) :=
  halts_cons.2 (by rw [h]; rfl)

/-- Texts that are the same up to places where no token goes on. -/
def Alongside (r r' : List Char) : Prop := ∃ b u u', r = b ++ u ∧ r' = b ++ u' ∧ Blunt u ∧ Blunt u'

theorem Blunt.halts {u : List Char} {p : Char → Bool} (h : Blunt u) (hp : ∀ c, p c = true → isBlunt c = false) :
    Halts p u :=
  h.mono fun c hc => by rw [hp c hc]; rfl

namespace Alongside

variable {r r' w t : List Char} {p : Char → Bool} {c : Char}

/-- More at the end of a text. -/
theorem extend {u : List Char} (hu : Blunt u) (r : List Char) : Alongside r (r ++ u) :=
  ⟨r, [], u, (List.append_nil r).symm, rfl, halts_nil _, hu⟩

theorem refl (r : List Char) : Alongside r r := by
  have h := extend (halts_nil _) r
  rwa [List.append_nil] at h

theorem symm (h : Alongside r r') : Alongside r' r := by
  obtain ⟨b, u, u', hr, hr', hu, hu'⟩ := h
  exact ⟨b, u', u, hr', hr, hu', hu⟩

theorem append (h : Alongside r r') (w : List Char) : Alongside (w ++ r) (w ++ r') := by
  obtain ⟨b, u, u', rfl, rfl, hu, hu'⟩ := h
  exact ⟨w ++ b, u, u', by rw [List.append_assoc], by rw [List.append_assoc], hu, hu'⟩

/-- They start with the same character and go on alike behind it, or no token goes on with either. -/
theorem cases_cons (h : Alongside (c :: r) r') : (∃ t, r' = c :: t ∧ Alongside r t) ∨ isBlunt c = true ∧ Blunt r' := by
  obtain ⟨b, u, u', hr, rfl, hu, hu'⟩ := h
  cases b with
  | nil =>
      obtain rfl : c :: r = u := hr
      exact .inr ⟨by simpa using halts_cons.1 hu, hu'⟩
  | cons c' b =>
      obtain ⟨rfl, rfl⟩ := List.cons.inj hr
      exact .inl ⟨b ++ u', rfl, b, u, u', rfl, rfl, hu, hu'⟩

theorem blunt_of_nil (h : Alongside [] r') : Blunt r' := by
  obtain ⟨b, u, u', hr, rfl, -, hu'⟩ := h
  obtain ⟨rfl, -⟩ := List.append_eq_nil_iff.1 hr.symm
  exact hu'

/-- A character that tokens go on with is in both of them. -/
theorem of_cons (h : Alongside (c :: r) r') (hc : isBlunt c = false) : ∃ t, r' = c :: t ∧ Alongside r t := by
  rcases h.cases_cons with h | ⟨hblunt, -⟩
  · exact h
  · rw [hc] at hblunt
    cases hblunt

theorem halts (h : Alongside r r') (hp : ∀ c, p c = true → isBlunt c = false) (hr : Halts p r) : Halts p r' := by
  cases r with
  | nil => exact h.blunt_of_nil.halts hp
  | cons c r =>
      rcases h.cases_cons with ⟨t, rfl, -⟩ | ⟨-, hblunt⟩
      · exact halts_cons.2 (halts_cons.1 hr)
      · exact hblunt.halts hp

/-- They start alike for every class of characters that tokens go on with. -/
theorem any_head? (h : Alongside r r') (hp : ∀ c, p c = true → isBlunt c = false) : r'.head?.any p = r.head?.any p := by
  have hnone : ∀ r : List Char, r.head?.any p = false ↔ Halts p r := fun r => by
    cases r <;> simp [Halts]
  cases hany : r.head?.any p with
  | false => exact (hnone r').2 (h.halts hp ((hnone r).1 hany))
  | true =>
      cases hany' : r'.head?.any p with
      | false => exact ((hnone r).2 (h.symm.halts hp ((hnone r').1 hany'))).symm.trans hany
      | true => rfl

theorem head?_ne (h : Alongside r r') (hc : isBlunt c = false) (hr : r.head? ≠ some c) : r'.head? ≠ some c := by
  have hany := h.any_head? (p := (· == c)) fun c' hc' => by rw [eq_of_beq hc', hc]
  intro hr'
  rw [hr', Option.any_some, beq_self_eq_true] at hany
  obtain ⟨c', hmem, heq⟩ := Option.any_eq_true _ _ |>.1 hany.symm
  exact hr (by rw [← eq_of_beq heq]; exact hmem)

/-- What one of them starts with, the other one starts with, if tokens go on with all of it. -/
theorem split (h : Alongside (w ++ t) r') (hw : ∀ c ∈ w, isBlunt c = false) : ∃ t', r' = w ++ t' ∧ Alongside t t' := by
  induction w generalizing r' with
  | nil => exact ⟨r', rfl, h⟩
  | cons c w ih =>
      obtain ⟨s, rfl, hs⟩ := of_cons h (hw c List.mem_cons_self)
      obtain ⟨t', rfl, ht⟩ := ih hs fun c' hc' => hw c' (List.mem_cons_of_mem c hc')
      exact ⟨t', rfl, ht⟩

end Alongside

/-! ## Blanks and comments -/

/-- What the text is part of, where it stands further behind. -/
def Trivia.moved (d : Nat) : Trivia → Trivia
  | .blockComment start => .blockComment (start + d)
  | trivia => trivia

/-- What becomes of a character in code that starts no comment. -/
theorem skipTrivia_code_cons {c : Char} {rest : List Char}
    (hcomment : c = '/' → rest.head? ≠ some '/' ∧ rest.head? ≠ some '*') (o : Nat) (newline : Bool) :
    skipTrivia .code o newline (c :: rest) =
      if c = '\n' then skipTrivia .code (o + 1) true rest
      else if isAsciiBlank c then skipTrivia .code (o + 1) newline rest
      else if 0x80 ≤ c.toNat && isBlank c then
        skipTrivia .code (o + c.utf8Size) (newline || c = '\u2028' || c = '\u2029') rest
      else .ok (newline, ⟨c :: rest, o⟩) := by
  rw [skipTrivia]
  · rintro rest' rfl rfl
    exact (hcomment rfl).1 rfl
  · rintro rest' rfl rfl
    exact (hcomment rfl).2 rfl

/-- What becomes of a character in a comment that does not end the comment. -/
theorem skipTrivia_blockComment_cons {c : Char} {rest : List Char} (hend : c = '*' → rest.head? ≠ some '/')
    (start o : Nat) (newline : Bool) :
    skipTrivia (.blockComment start) o newline (c :: rest) =
      skipTrivia (.blockComment start) (o + c.utf8Size) (newline || c = '\n') rest := by
  rw [skipTrivia]
  rintro rest' rfl rfl
  exact hend rfl rfl

/-- A text in front of which nothing is skipped. -/
structure Solid (x : Char) (rest : List Char) : Prop where
  comment : x = '/' → rest.head? ≠ some '/' ∧ rest.head? ≠ some '*'
  line : x ≠ '\n'
  blank : isAsciiBlank x = false
  wide : (0x80 ≤ x.toNat && isBlank x) = false

theorem Solid.skip {x : Char} {rest : List Char} (h : Solid x rest) (o : Nat) (newline : Bool) :
    skipTrivia .code o newline (x :: rest) = .ok (newline, ⟨x :: rest, o⟩) :=
  skipTrivia_of_solid h.comment h.line h.blank h.wide o newline

/-- Whether something is skipped in front of a token does not depend on what is behind the token. -/
theorem Solid.alongside {x : Char} {w r r' : List Char} (h : Solid x (w ++ r)) (hr : Alongside r r') : Solid x (w ++ r') := by
  refine ⟨fun hx => ?_, h.line, h.blank, h.wide⟩
  have hw := hr.append w
  obtain ⟨hslash, hstar⟩ := h.comment hx
  exact ⟨hw.head?_ne (by decide) hslash, hw.head?_ne (by decide) hstar⟩

/-- What is skipped in front of a token is skipped in front of every token. -/
theorem skipTrivia_alongside {trivia : Trivia} {o : Nat} {newline newline' : Bool} {cs : List Char} {next : Cursor}
    (h : skipTrivia trivia o newline cs = .ok (newline', next)) (hnext : next.rest ≠ []) :
    ∃ w, Moves ⟨cs, o⟩ w next ∧ (∃ x rest, next.rest = x :: rest ∧ Solid x rest) ∧
      (∀ start, trivia = .blockComment start → w ≠ []) ∧ ∀ d x rest, Solid x rest →
        skipTrivia (trivia.moved d) (o + d) newline (w ++ x :: rest) = .ok (newline', ⟨x :: rest, next.offset + d⟩) := by
  fun_induction skipTrivia trivia o newline cs with
  | case1 =>
      cases h
      exact absurd rfl hnext
  | case2 o newline rest ih =>
      obtain ⟨w, hw, hsolid, -, hagain⟩ := ih h
      refine ⟨_, hw.cons.cons, hsolid, fun _ _ => List.cons_ne_nil _ _, fun d x rest' hx => ?_⟩
      rw [← hagain d x rest' hx, Nat.add_right_comm]
      rfl
  | case3 o newline rest ih =>
      obtain ⟨w, hw, hsolid, -, hagain⟩ := ih h
      refine ⟨_, hw.cons.cons, hsolid, fun _ _ => List.cons_ne_nil _ _, fun d x rest' hx => ?_⟩
      rw [← hagain d x rest' hx, Nat.add_right_comm]
      rfl
  | case4 o newline rest h₁ h₂ ih =>
      obtain ⟨w, hw, hsolid, -, hagain⟩ := ih h
      refine ⟨_, hw.cons, hsolid, fun _ _ => List.cons_ne_nil _ _, fun d x rest' hx => ?_⟩
      rw [← hagain d x rest' hx, Nat.add_right_comm]
      rfl
  | case5 o newline c rest h₁ h₂ hline hblank ih =>
      obtain ⟨w, hw, hsolid, -, hagain⟩ := ih h
      rw [← utf8Size_of_isAsciiBlank hblank] at hw
      refine ⟨_, hw.cons, hsolid, fun _ _ => List.cons_ne_nil _ _, fun d x rest' hx => ?_⟩
      have hcomment : c ≠ '/' := by
        rintro rfl
        cases hblank
      rw [← hagain d x rest' hx, Nat.add_right_comm]
      show skipTrivia .code (o + d) newline (c :: (w ++ x :: rest')) = _
      rw [skipTrivia_code_cons (fun hc => absurd hc hcomment), if_neg hline, if_pos hblank]
      rfl
  | case6 o newline c rest h₁ h₂ hline hblank hwide ih =>
      obtain ⟨w, hw, hsolid, -, hagain⟩ := ih h
      refine ⟨_, hw.cons, hsolid, fun _ _ => List.cons_ne_nil _ _, fun d x rest' hx => ?_⟩
      have hcomment : c ≠ '/' := by
        rintro rfl
        revert hwide
        decide
      rw [← hagain d x rest' hx, Nat.add_right_comm]
      show skipTrivia .code (o + d) newline (c :: (w ++ x :: rest')) = _
      rw [skipTrivia_code_cons (fun hc => absurd hc hcomment), if_neg hline, if_neg hblank, if_pos hwide]
      rfl
  | case7 o newline c rest h₁ h₂ hline hblank hwide =>
      cases h
      have hsolid : Solid c rest := by
        refine ⟨fun hc => ?_, hline, by simpa using hblank, by simpa using hwide⟩
        refine ⟨fun hhead => ?_, fun hhead => ?_⟩
        · obtain ⟨rest', hrest⟩ := List.head?_eq_some_iff.1 hhead
          exact h₁ rest' hc hrest
        · obtain ⟨rest', hrest⟩ := List.head?_eq_some_iff.1 hhead
          exact h₂ rest' hc hrest
      exact ⟨[], .refl _, ⟨c, rest, rfl, hsolid⟩, fun _ heq => Trivia.noConfusion heq, fun d x rest' hx => hx.skip _ _⟩
  | case8 =>
      cases h
      exact absurd rfl hnext
  | case9 o newline rest ih =>
      obtain ⟨w, hw, hsolid, -, hagain⟩ := ih h
      refine ⟨_, hw.cons, hsolid, fun _ _ => List.cons_ne_nil _ _, fun d x rest' hx => ?_⟩
      rw [← hagain d x rest' hx, Nat.add_right_comm]
      rfl
  | case10 o newline c rest hline ih =>
      obtain ⟨w, hw, hsolid, -, hagain⟩ := ih h
      refine ⟨_, hw.cons, hsolid, fun _ _ => List.cons_ne_nil _ _, fun d x rest' hx => ?_⟩
      rw [← hagain d x rest' hx, Nat.add_right_comm]
      exact if_neg hline
  | case11 => cases h
  | case12 start o newline rest ih =>
      obtain ⟨w, hw, hsolid, -, hagain⟩ := ih h
      refine ⟨_, hw.cons.cons, hsolid, fun _ _ => List.cons_ne_nil _ _, fun d x rest' hx => ?_⟩
      rw [← hagain d x rest' hx, Nat.add_right_comm]
      rfl
  | case13 start o newline c rest hend ih =>
      obtain ⟨w, hw, hsolid, hmore, hagain⟩ := ih h
      refine ⟨_, hw.cons, hsolid, fun _ _ => List.cons_ne_nil _ _, fun d x rest' hx => ?_⟩
      -- the comment is not over, so that its next character is known
      obtain ⟨y, w, rfl⟩ := List.exists_cons_of_ne_nil (hmore start rfl)
      have hclose : c = '*' → (y :: w ++ x :: rest').head? ≠ some '/' := by
        intro hc hhead
        obtain rfl : y = '/' := Option.some.inj hhead
        exact hend (w ++ next.rest) hc hw.rest
      rw [← hagain d x rest' hx, Nat.add_right_comm]
      exact skipTrivia_blockComment_cons hclose _ _ _

/-- What is skipped is skipped wherever it stands. -/
theorem skipTrivia_moved {trivia : Trivia} {o : Nat} {newline newline' : Bool} {cs : List Char} {next : Cursor}
    (h : skipTrivia trivia o newline cs = .ok (newline', next)) (d : Nat) :
    skipTrivia (trivia.moved d) (o + d) newline cs = .ok (newline', ⟨next.rest, next.offset + d⟩) := by
  fun_induction skipTrivia trivia o newline cs with
  | case1 | case8 =>
      cases h
      rfl
  | case7 =>
      cases h
      simp_all [skipTrivia, Trivia.moved]
  | case11 => cases h
  | case13 start o newline c rest hend ih =>
      rw [← ih h, Nat.add_right_comm, Trivia.moved, skipTrivia_blockComment_cons]
      intro hc hhead
      obtain ⟨rest', rfl⟩ := List.head?_eq_some_iff.1 hhead
      exact hend rest' hc rfl
  | _ =>
      rename_i ih
      rw [← ih h, Nat.add_right_comm]
      simp_all [skipTrivia, Trivia.moved]

/-- A text that the expression language skips: blanks, whole comments between slashes and stars, and comments up to the
end of a line, with this end. -/
def Skipped (w : List Char) : Prop :=
  ∀ o newline rest, ∃ newline',
    skipTrivia .code o newline (w ++ rest) = skipTrivia .code (o + byteLength w) newline' rest

theorem skipped_nil : Skipped [] := fun _ newline _ => ⟨newline, rfl⟩

theorem skipped_blockComment : Skipped "/* c */".toList := by
  intro o newline rest
  exact ⟨_, rfl⟩

/-! ## Numbers -/

theorem isBlunt_of_isDigitOrGap {c : Char} (h : isDigitOrGap c = true) : isBlunt c = false :=
  isBlunt_of_isWordPart (isWordPart_of_isDigitOrGap h)

theorem isBlunt_of_isDigit {c : Char} (h : isDigit c = true) : isBlunt c = false :=
  isBlunt_of_isDigitOrGap (by rw [isDigitOrGap, h, Bool.true_or])

theorem isBlunt_of_isPower {p : List Char} (h : IsPower p) : ∀ c ∈ p, isBlunt c = false := by
  obtain ⟨m, sign, d, ds, rfl, hm, hsign, hd, hds⟩ := h
  intro c hmem
  rcases List.mem_cons.1 hmem with rfl | hmem
  · rcases hm with rfl | rfl <;> decide
  rcases List.mem_append.1 hmem with hc | hmem
  · rcases hsign with rfl | rfl | rfl
    · cases hc
    · rw [List.mem_singleton.1 hc]
      decide
    · rw [List.mem_singleton.1 hc]
      decide
  rcases List.mem_cons.1 hmem with rfl | hc
  · exact isBlunt_of_isDigit hd
  · exact isBlunt_of_isDigitOrGap (hds c hc)

/-- Either the same power of ten is skipped in both texts or nothing. -/
theorem skipPower_alongside {cs cs' : List Char} (h : Alongside cs cs') : ∃ p t t', cs = p ++ t ∧ cs' = p ++ t' ∧
    (∀ o, skipPower ⟨cs, o⟩ = ⟨t, o + byteLength p⟩) ∧ ∀ o, skipPower ⟨cs', o⟩ = ⟨t', o + byteLength p⟩ := by
  have hpower : ∀ {cs cs' p t : List Char}, Alongside cs cs' → cs = p ++ t → IsPower p → Halts isDigitOrGap t →
      ∃ t', cs' = p ++ t' ∧ (∀ o, skipPower ⟨cs, o⟩ = ⟨t, o + byteLength p⟩) ∧
        ∀ o, skipPower ⟨cs', o⟩ = ⟨t', o + byteLength p⟩ := by
    rintro _ cs' p t halongside rfl hp ht
    obtain ⟨t', rfl, ht'⟩ := halongside.split (isBlunt_of_isPower hp)
    have hhalts := ht'.halts (fun _ => isBlunt_of_isDigitOrGap) ht
    exact ⟨t', rfl, fun o => skipPower_of_isPower hp ht, fun o => skipPower_of_isPower hp hhalts⟩
  rcases skipPower_cases cs with hnone | ⟨p, t, hcs, hp, ht⟩
  · rcases skipPower_cases cs' with hnone' | ⟨p, t', hcs', hp, ht'⟩
    · exact ⟨[], cs, cs', rfl, rfl, hnone, hnone'⟩
    · -- the power would be there in the other text too
      obtain ⟨t, hcs, -, hskip⟩ := hpower h.symm hcs' hp ht'
      have hlength := congrArg (·.rest.length) ((hnone 0).symm.trans (hskip 0))
      obtain ⟨m, more, rfl⟩ : ∃ m more, p = m :: more := by
        obtain ⟨m, sign, d, ds, hpm, -⟩ := hp
        exact ⟨m, _, hpm⟩
      rw [hcs] at hlength
      simp only [List.length_append, List.length_cons] at hlength
      omega
  · obtain ⟨t', hcs', hskip, hskip'⟩ := hpower h hcs hp ht
    exact ⟨p, t, t', hcs, hcs', hskip, hskip'⟩

theorem DecimalSplit.alongside {w f p r r' : List Char} (h : DecimalSplit w f p r) (hr : Alongside r r') :
    DecimalSplit w f p r' := by
  have hbehind := hr.append p
  refine ⟨h.whole, ?_, hbehind.halts (fun _ => isBlunt_of_isDigitOrGap) h.halts, h.power, fun o => ?_⟩
  · rcases h.fraction with ⟨hf, hpoint⟩ | hfraction
    · exact .inl ⟨hf, hbehind.head?_ne (by decide) hpoint⟩
    · exact .inr hfraction
  · obtain ⟨q, t, t', hq, hq', hskip, hskip'⟩ := skipPower_alongside hbehind
    obtain rfl : t = r := congrArg Cursor.rest ((hskip 0).symm.trans (h.skip 0))
    obtain rfl : p = q := List.append_cancel_right hq
    rw [hskip', List.append_cancel_left hq']

theorem scanDecimal_alongside {cs : List Char} {o : Nat} {x : Float} {next : Cursor}
    (h : scanDecimal ⟨cs, o⟩ = .ok (x, next)) : ∃ w, Moves ⟨cs, o⟩ w next ∧
      ∀ d r', Alongside next.rest r' → scanDecimal ⟨w ++ r', o + d⟩ = .ok (x, ⟨r', next.offset + d⟩) := by
  obtain ⟨w, f, p, rest, rfl, hsplit⟩ := exists_decimalSplit cs
  rw [scanDecimal_eq hsplit] at h
  split at h
  · cases h
  rename_i hword
  split at h
  · rename_i value hvalue
    cases h
    refine ⟨w ++ (f ++ p), ⟨by simp, rfl⟩, fun d r' hr' => ?_⟩
    have happend : w ++ (f ++ p) ++ r' = w ++ (f ++ (p ++ r')) := by simp
    have hword' := hr'.any_head? fun _ hc => isBlunt_of_isWordPart (isWordPart_of_isWordStart hc)
    rw [happend, scanDecimal_eq (hsplit.alongside hr'), hword', if_neg hword, hvalue]
    simp only [Nat.add_right_comm]
  · cases h

theorem isBlunt_of_radixOf? {c : Char} {radix : Nat} (h : radixOf? c = some radix) : isBlunt c = false := by
  unfold radixOf? at h
  split at h
  · rename_i hc
    rcases hc with rfl | rfl <;> decide
  split at h
  · rename_i hc
    rcases hc with rfl | rfl <;> decide
  split at h
  · rename_i hc
    rcases hc with rfl | rfl <;> decide
  · cases h

theorem radixAt?_alongside {cs cs' : List Char} (h : Alongside cs cs') : radixAt? cs' = radixAt? cs := by
  have hsome : ∀ {cs cs' : List Char} {radix : Nat}, Alongside cs cs' → radixAt? cs = some radix →
      radixAt? cs' = some radix := by
    intro cs cs' radix halongside hradix
    obtain ⟨mark, rest, rfl, hmark⟩ := exists_of_radixAt? hradix
    obtain ⟨t, rfl, ht⟩ := halongside.of_cons (by decide)
    obtain ⟨t', rfl, -⟩ := ht.of_cons (isBlunt_of_radixOf? hmark)
    exact hmark
  exact Option.ext fun radix => ⟨hsome h.symm, hsome h⟩

theorem isBlunt_of_radixDigit {mark c : Char} {radix : Nat} (hmark : radixOf? mark = some radix)
    (h : (isDigitOf radix c || decide (c = '_')) = true) : isBlunt c = false := by
  have hradix : radix ≤ 36 := by
    unfold radixOf? at hmark
    split at hmark
    · cases hmark
      decide
    split at hmark
    · cases hmark
      decide
    split at hmark
    · cases hmark
      decide
    · cases hmark
  rcases Bool.or_eq_true_iff.1 h with hdigit | hgap
  · exact isBlunt_of_isWordPart (isWordPart_of_isDigitOf hradix hdigit)
  · rw [of_decide_eq_true hgap]
    decide

theorem scanNumber_alongside {cs : List Char} {o : Nat} {x : Float} {next : Cursor}
    (h : scanNumber ⟨cs, o⟩ = .ok (x, next)) : ∃ w, Moves ⟨cs, o⟩ w next ∧
      ∀ d r', Alongside next.rest r' → scanNumber ⟨w ++ r', o + d⟩ = .ok (x, ⟨r', next.offset + d⟩) := by
  cases hradix : radixAt? cs with
  | none =>
      rw [scanNumber_decimal hradix] at h
      obtain ⟨w, hw, hagain⟩ := scanDecimal_alongside h
      refine ⟨w, hw, fun d r' hr' => ?_⟩
      have hradix' : radixAt? (w ++ r') = none := by rw [radixAt?_alongside (hr'.append w), ← hw.rest, hradix]
      rw [scanNumber_decimal hradix', hagain d r' hr']
  | some radix =>
      obtain ⟨mark, rest, rfl, hmark⟩ := exists_of_radixAt? hradix
      obtain ⟨digits, t, rfl, hdigits, ht⟩ := exists_halts (fun c => isDigitOf radix c || c = '_') rest
      have hscan : ∀ t o, scanNumber ⟨'0' :: mark :: (digits ++ t), o⟩ =
          scanRadix o radix ⟨digits ++ t, o + ('0'.utf8Size + mark.utf8Size)⟩ := by
        intro t o
        simp only [scanNumber, hmark, Cursor.drop_two]
      rw [hscan, scanRadix_append _ _ hdigits ht] at h
      split at h
      · cases h
      rename_i hvalue
      cases h
      refine ⟨'0' :: mark :: digits, ⟨rfl, by simp [Nat.add_assoc]⟩, fun d r' hr' => ?_⟩
      have hhalts := hr'.halts (fun c hc => isBlunt_of_radixDigit hmark hc) ht
      rw [List.cons_append, List.cons_append, hscan, scanRadix_append _ _ hdigits hhalts, if_neg hvalue]
      simp only [Nat.add_right_comm]

/-! ## Marks -/

/-- Marks go on with characters that tokens go on with. -/
theorem exists_of_mark (p : Punct) : ∃ x rest, p.text.toList = x :: rest ∧ ∀ c ∈ rest, isBlunt c = false := by
  have hblunt : ∀ p : Punct, p.text.toList.tail.all (!isBlunt ·) = true := by
    intro p
    cases p <;> rfl
  have hrest := List.all_eq_true.1 (hblunt p)
  cases p <;> exact ⟨_, _, rfl, fun c hc => by simpa using hrest c hc⟩

/-- Behind its first character a mark is found in both texts or in neither. -/
theorem leadingPunct?_alongside {x : Char} {cs cs' : List Char} (h : Alongside cs cs') :
    leadingPunct? (x :: cs') = leadingPunct? (x :: cs) := by
  have hmark : ∀ {cs cs' : List Char} {p : Punct}, Alongside cs cs' → p.text.toList <+: x :: cs →
      p.text.toList <+: x :: cs' := by
    intro cs cs' p halongside hprefix
    obtain ⟨y, rest, htext, hrest⟩ := exists_of_mark p
    rw [htext] at hprefix ⊢
    obtain ⟨t, ht⟩ := hprefix
    obtain ⟨rfl, rfl⟩ := List.cons.inj ht
    obtain ⟨t', rfl, -⟩ := halongside.split hrest
    exact ⟨t', rfl⟩
  unfold leadingPunct?
  congr 1
  funext p
  have hsame : p.text.toList.isPrefixOf (x :: cs') = p.text.toList.isPrefixOf (x :: cs) := by
    rw [Bool.eq_iff_iff, List.isPrefixOf_iff_prefix, List.isPrefixOf_iff_prefix]
    exact ⟨hmark h.symm, hmark h⟩
  rw [hsame]
  cases hfront : p.text.toList.isPrefixOf (x :: cs) with
  | false => rfl
  | true =>
      by_cases hp : p = .optionalDot
      · subst hp
        obtain ⟨t, ht⟩ := List.isPrefixOf_iff_prefix.1 hfront
        obtain ⟨rfl, rfl⟩ : '?' = x ∧ '.' :: t = cs := List.cons.inj ht
        obtain ⟨t', rfl, ht'⟩ := h.of_cons (by decide)
        show (true && !(true && t'.head?.any isDigit)) = (true && !(true && t.head?.any isDigit))
        rw [ht'.any_head? fun _ => isBlunt_of_isDigit]
      · have hne : (p == .optionalDot) = false := by simpa using hp
        rw [hne]
        rfl

/-! ## Tokens -/

theorem scanTemplate_alongside {head : Bool} {outer d' : Depths} {x : Char} {rest : List Char} {o : Nat}
    {kind : Kind} {next : Cursor} {found : List Char → Nat → Scan (Kind × Depths × Cursor)}
    (hfound : ∀ rest o, found rest o =
      match scanTemplate o ⟨rest, o + x.utf8Size⟩ (rest.length + 1) [] ⟨rest, o + x.utf8Size⟩ with
      | .ok (part, ending, next) =>
        (.ok (templateKind head part ending, (match ending with
          | .closed => outer
          | .substitution => 0 :: outer), next) : Scan (Kind × Depths × Cursor))
      | .error fault => .error fault)
    (h : found rest o = .ok (kind, d', next)) : ∃ w, Moves ⟨x :: rest, o⟩ (x :: w) next ∧
      ∀ d r', Alongside next.rest r' → found (w ++ r') (o + d) = .ok (kind, d', ⟨r', next.offset + d⟩) := by
  rw [hfound] at h
  split at h
  · rename_i part ending after hscan
    cases h
    obtain ⟨u, rfl, hoffset, hraw, hagain⟩ := scanTemplate_local hscan
    refine ⟨u ++ ending.chars, ⟨by simp, ?_⟩, fun d r' _ => ?_⟩
    · rw [hoffset, byteLength_cons, byteLength_append]
      simp only [Nat.add_assoc]
    · have hlength : u.length < (u ++ (ending.chars ++ r')).length + 1 := by
        rw [List.length_append]
        omega
      rw [hfound, List.append_assoc, hagain _ _ _ ending r' _ hlength, hoffset]
      rw [Cursor.upTo_append] at hraw ⊢
      simp only [Nat.add_right_comm, ← hraw]
  · cases h

theorem StartsNumber.alongside {cs cs' : List Char} (h : StartsNumber cs) (hcs : Alongside cs cs') : StartsNumber cs' := by
  obtain ⟨c, rest, rfl, hc⟩ := h
  rcases hc with hc | ⟨rfl, hc⟩
  · obtain ⟨t, rfl, -⟩ := hcs.of_cons (isBlunt_of_isDigit hc)
    exact ⟨c, t, rfl, .inl hc⟩
  · obtain ⟨t, rfl, ht⟩ := hcs.of_cons (by decide)
    exact ⟨'.', t, rfl, .inr ⟨rfl, by rw [ht.any_head? fun _ => isBlunt_of_isDigit, hc]⟩⟩

theorem scanKind_alongside {D D' : Depths} {c next : Cursor} {kind : Kind}
    (h : scanKind D c = .ok (kind, D', next)) (hc : c.rest ≠ []) : ∃ w, Moves c w next ∧ w ≠ [] ∧
      ∀ d r', Alongside next.rest r' → scanKind D ⟨w ++ r', c.offset + d⟩ = .ok (kind, D', ⟨r', next.offset + d⟩) := by
  obtain ⟨cs, o⟩ := c
  cases cs with
  | nil => exact absurd rfl hc
  | cons x rest =>
      by_cases hstart : StartsNumber (x :: rest)
      · rw [scanKind_of_startsNumber hstart] at h
        obtain ⟨raw, hraw⟩ := passes_number hstart h
        cases hscan : scanNumber ⟨x :: rest, o⟩ with
        | error fault =>
            rw [hscan] at h
            cases h
        | ok result =>
            rw [hscan] at h
            cases h
            obtain ⟨w, hw, hagain⟩ := scanNumber_alongside hscan
            have hne : w ≠ [] := by
              rw [List.append_cancel_right (hw.rest.symm.trans hraw.rest)]
              exact hraw.ne_nil rfl
            refine ⟨w, hw, hne, fun d r' hr' => ?_⟩
            have hsplit : x :: rest = w ++ result.2.rest := hw.rest
            rw [hsplit] at hstart
            have hstart' : StartsNumber (w ++ r') := hstart.alongside (hr'.append w)
            rw [scanKind_of_startsNumber hstart', hagain d r' hr']
            rfl
      -- no other token starts with a digit, nor with a point in front of one
      have hdigit : ¬ isDigit x = true := fun hx => hstart ⟨x, rest, rfl, .inl hx⟩
      have hpoint : ¬ (x = '.' && rest.head?.any isDigit : Bool) = true := by
        intro hx
        simp only [Bool.and_eq_true, decide_eq_true_eq] at hx
        exact hstart ⟨x, rest, rfl, .inr hx⟩
      have hpoint' : ∀ {w r'}, Moves ⟨x :: rest, o⟩ (x :: w) next → Alongside next.rest r' →
          ¬ (x = '.' && (w ++ r').head?.any isDigit : Bool) = true := by
        intro w r' hw hr'
        have hrest : rest = w ++ next.rest := (List.cons.inj hw.rest).2
        rwa [(hr'.append w).any_head? fun _ => isBlunt_of_isDigit, ← hrest]
      simp only [scanKind, Cursor.drop_one] at h
      by_cases hquote : (x = '"' || x = '\'' : Bool) = true
      · rw [if_pos hquote] at h
        cases hscan : scanString x o (rest.length + 1) [] ⟨rest, o + x.utf8Size⟩ with
        | error fault =>
            rw [hscan] at h
            cases h
        | ok found =>
            rw [hscan] at h
            cases h
            obtain ⟨body, hbody, -, hoffset, hagain⟩ := scanString_local hscan
            refine ⟨x :: body, Moves.cons ⟨hbody, hoffset⟩, List.cons_ne_nil x body, fun d r' _ => ?_⟩
            have hfuel : body.length ≤ (body ++ r').length + 1 := by
              rw [List.length_append]
              omega
            simp only [List.cons_append, scanKind, if_pos hquote, Cursor.drop_one, hagain _ _ r' _ hfuel, hoffset]
            simp only [Nat.add_right_comm]
            rfl
      rw [if_neg hquote] at h
      by_cases htick : x.toNat = 96
      · rw [if_pos htick] at h
        obtain ⟨w, hw, hagain⟩ := scanTemplate_alongside (fun _ _ => rfl) h
        refine ⟨x :: w, hw, List.cons_ne_nil x w, fun d r' hr' => ?_⟩
        simp only [List.cons_append, scanKind, if_neg hquote, if_pos htick, Cursor.drop_one]
        exact hagain d r' hr'
      rw [if_neg htick, if_neg hdigit, if_neg hpoint] at h
      by_cases hbrace : (x = '}' && D.head? = some 0 : Bool) = true
      · rw [if_pos hbrace] at h
        obtain ⟨w, hw, hagain⟩ := scanTemplate_alongside (fun _ _ => rfl) h
        refine ⟨x :: w, hw, List.cons_ne_nil x w, fun d r' hr' => ?_⟩
        simp only [List.cons_append, scanKind, if_neg hquote, if_neg htick, if_neg hdigit, if_neg (hpoint' hw hr'),
          if_pos hbrace, Cursor.drop_one]
        exact hagain d r' hr'
      rw [if_neg hbrace] at h
      by_cases hword : (isWordStart x || (0x80 ≤ x.toNat && isLetter x) : Bool) = true
      · rw [if_pos hword] at h
        obtain ⟨w, t, hsplit, hw, ht⟩ := exists_halts isWordPart (x :: rest)
        obtain ⟨w, rfl⟩ : ∃ w', w = x :: w' := by
          cases w with
          | nil =>
              rw [List.nil_append] at hsplit
              rw [← hsplit, halts_cons, isWordPart_of_isWordHead hword] at ht
              cases ht
          | cons x' w => exact ⟨w, by rw [(List.cons.inj hsplit).1]⟩
        rw [hsplit, Cursor.takeWhile_append hw ht] at h
        cases h
        have hmoves : Moves ⟨x :: rest, o⟩ (x :: w) ⟨t, o + byteLength (x :: w)⟩ := ⟨hsplit, rfl⟩
        refine ⟨x :: w, hmoves, List.cons_ne_nil x w, fun d r' hr' => ?_⟩
        have htake := Cursor.takeWhile_append (o := o + d) hw (hr'.halts (fun _ => isBlunt_of_isWordPart) ht)
        simp only [List.cons_append] at htake ⊢
        simp only [scanKind, if_neg hquote, if_neg htick, if_neg hdigit, if_neg (hpoint' hmoves hr'), if_neg hbrace,
          if_pos hword, htake, Nat.add_right_comm]
      rw [if_neg hword] at h
      split at h
      · rename_i mark hmark
        have hfront := List.find?_some hmark
        rw [Bool.and_eq_true] at hfront
        obtain ⟨t, ht⟩ := List.isPrefixOf_iff_prefix.1 hfront.1
        obtain ⟨x', w, htext, -⟩ := mark_cases mark
        have hlength : (x' :: w).length = mark.text.length := by rw [← htext, String.length_toList]
        rw [htext] at ht
        obtain ⟨rfl, rfl⟩ : x = x' ∧ rest = w ++ t := List.cons.inj ht.symm
        have hdrop : ∀ t o, (Cursor.mk (x :: (w ++ t)) o).drop mark.text.length = ⟨t, o + byteLength (x :: w)⟩ :=
          fun t o => Cursor.drop_append hlength
        rw [hdrop] at h
        cases h
        refine ⟨x :: w, ⟨rfl, rfl⟩, List.cons_ne_nil x w, fun d r' hr' => ?_⟩
        have hmark' : leadingPunct? (x :: (w ++ r')) = some mark :=
          (leadingPunct?_alongside (hr'.append w)).trans hmark
        simp only [List.cons_append, scanKind, if_neg hquote, if_neg htick, if_neg hdigit,
          if_neg (hpoint' ⟨rfl, rfl⟩ hr'), if_neg hbrace, if_neg hword, hmark', hdrop, Nat.add_right_comm]
      · cases h

/-- The next token, and the text in front of which it is found again. -/
theorem scanToken_alongside {D D' : Depths} {c next : Cursor} {t : Token}
    (h : scanToken D c = .ok (t, D', next)) (ht : t.isEof = false) : ∃ w, Moves c w next ∧
      ∀ d r', Alongside next.rest r' → scanToken D ⟨w ++ r', c.offset + d⟩ = .ok (t.moved d, D', ⟨r', next.offset + d⟩) := by
  simp only [scanToken] at h
  split at h
  · cases h
  rename_i newline first htrivia
  split at h
  · cases h
  rename_i kind depths after hkind
  cases h
  have hmore : first.rest ≠ [] := by
    intro hnil
    simp only [scanKind, hnil] at hkind
    cases hkind
    cases ht
  obtain ⟨w, hw, hne, hkind'⟩ := scanKind_alongside hkind hmore
  obtain ⟨blank, hblank, ⟨x, rest, hfirst, hsolid⟩, -, htrivia'⟩ := skipTrivia_alongside htrivia hmore
  obtain ⟨y, w, rfl⟩ := List.exists_cons_of_ne_nil hne
  obtain ⟨rfl, rfl⟩ : x = y ∧ rest = w ++ next.rest := List.cons.inj (hfirst.symm.trans hw.rest)
  refine ⟨blank ++ x :: w, hblank.trans hw, fun d r' hr' => ?_⟩
  have hfirst := htrivia' d x (w ++ r') (hsolid.alongside hr')
  have hupTo : (⟨x :: (w ++ r'), first.offset + d⟩ : Cursor).upTo ⟨r', next.offset + d⟩ = first.upTo next := by
    rw [← List.cons_append, Cursor.upTo_append, hw.upTo_eq]
  simp only [scanToken, List.append_assoc, List.cons_append]
  rw [show skipTrivia .code (c.offset + d) false (blank ++ x :: (w ++ r')) = _ from hfirst]
  have hkind'' := hkind' d r' hr'
  rw [List.cons_append] at hkind''
  simp only [hkind'', hupTo]
  rfl

/-! ## The end of the text -/

theorem isEnd_templateKind (head : Bool) (part : TemplatePart) (ending : TemplateEnd) :
    (templateKind head part ending).isEnd = false := by
  cases head <;> cases ending <;> rfl

/-- Only at its end a text ends. -/
theorem rest_of_isEnd {D D' : Depths} {c next : Cursor} {kind : Kind} (h : scanKind D c = .ok (kind, D', next))
    (hend : kind.isEnd = true) : c.rest = [] := by
  have hnot : kind.isEnd = false → c.rest = [] := fun hfalse => absurd hend (by rw [hfalse]; exact Bool.false_ne_true)
  have hnumber : (scanNumber c).map (fun found => (Kind.number found.1, D, found.2)) = .ok (kind, D', next) →
      kind.isEnd = false := by
    intro hmap
    cases hscan : scanNumber c with
    | error fault =>
        rw [hscan] at hmap
        cases hmap
    | ok found =>
        rw [hscan] at hmap
        cases hmap
        rfl
  obtain ⟨cs, o⟩ := c
  cases cs with
  | nil => rfl
  | cons x rest =>
      refine hnot ?_
      simp only [scanKind, Cursor.drop_one] at h
      split at h
      · cases hscan : scanString x o (rest.length + 1) [] ⟨rest, o + x.utf8Size⟩ with
        | error fault =>
            rw [hscan] at h
            cases h
        | ok found =>
            rw [hscan] at h
            cases h
            rfl
      split at h
      · split at h <;> cases h
        exact isEnd_templateKind ..
      split at h
      · exact hnumber h
      split at h
      · exact hnumber h
      split at h
      · split at h <;> cases h
        exact isEnd_templateKind ..
      split at h
      · cases h
        exact isEnd_wordKind _
      split at h
      · cases h
        rfl
      · cases h

/-- The end of a text is found wherever the text stands. -/
theorem scanToken_end {D D' : Depths} {c next : Cursor} {t : Token} (h : scanToken D c = .ok (t, D', next))
    (ht : t.isEof = true) (d : Nat) :
    ∃ next', scanToken D ⟨c.rest, c.offset + d⟩ = .ok (t.moved d, D', next') := by
  simp only [scanToken] at h
  split at h
  · cases h
  rename_i newline first htrivia
  split at h
  · cases h
  rename_i kind depths after hkind
  cases h
  rw [isEof_eq] at ht
  obtain ⟨rest, o⟩ := first
  obtain rfl : rest = [] := rest_of_isEnd hkind ht
  cases hkind
  have hfirst : skipTrivia .code (c.offset + d) false c.rest = .ok (newline, ⟨[], o + d⟩) := skipTrivia_moved htrivia d
  refine ⟨⟨[], o + d⟩, ?_⟩
  simp only [scanToken, hfirst, scanKind]
  simp [Token.moved, Span.moved, Cursor.upTo]

end Token
end FieldScript
