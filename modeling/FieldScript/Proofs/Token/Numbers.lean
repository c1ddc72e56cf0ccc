import FieldScript.Proofs.Token.Lexeme

/-!
# Numbers in a text

A number consists of digits, a fraction and a power of ten, of which some may be missing, or of digits in another
radix. Where the scan has found a number, it finds the same one again in front of every text that continues
neither a word nor, if the number has digits only, a fraction.

* `scanNumber_isNumber`: what the scan has found is such a number.
* `Lexeme.number_scans`: such a number scans.
-/

namespace FieldScript.Token

open FieldScript.Text

/-! ## Classes of characters -/

theorem isWordPart_of_isDigitOrGap {c : Char} (h : isDigitOrGap c = true) : isWordPart c = true := by
  simp only [isDigitOrGap, Bool.or_eq_true, decide_eq_true_eq] at h
  rcases h with h | rfl
  · have hrange := toNat_of_isDigit h
    have hascii : c.toNat < 0x80 := by omega
    have hdigit : c.isDigit = true := by
      simp only [Char.isDigit, Bool.and_eq_true, decide_eq_true_eq, ge_iff_le, UInt32.le_iff_toNat_le]
      exact hrange
    simp [isWordPart, isLetterOrNumber, isNumber, hascii, hdigit]
  · decide

theorem isWordPart_of_isWordStart {c : Char} (h : isWordStart c = true) : isWordPart c = true :=
  isWordPart_of_isWordHead (by simp [isWordHead, h])

/-- The letters of ASCII, by their places among the characters. -/
theorem isAlpha_iff {c : Char} : c.isAlpha = true ↔ ('A' ≤ c ∧ c ≤ 'Z') ∨ ('a' ≤ c ∧ c ≤ 'z') := by
  change (decide (65 ≤ c.val ∧ c.val ≤ 90) || (decide (97 ≤ c.val) && decide (c.val ≤ 122))) = true ↔ _
  simp only [Bool.or_eq_true, Bool.and_eq_true, decide_eq_true_eq]
  exact Iff.rfl

/-- A digit of a radix continues a word. -/
theorem isWordPart_of_isDigitOf {radix : Nat} (hradix : radix ≤ 36) {c : Char} (h : isDigitOf radix c = true) :
    isWordPart c = true := by
  have hvalue : digitValue c < 36 := by
    simp only [isDigitOf, decide_eq_true_eq] at h
    omega
  have hclass : isDigit c = true ∨ c.isAlpha = true := by
    simp only [digitValue] at hvalue
    split at hvalue
    · exact .inl ‹_›
    · split at hvalue
      · rename_i hlower
        simp only [Bool.and_eq_true, decide_eq_true_eq] at hlower
        exact .inr (isAlpha_iff.2 (.inr hlower))
      · split at hvalue
        · rename_i hupper
          simp only [Bool.and_eq_true, decide_eq_true_eq] at hupper
          exact .inr (isAlpha_iff.2 (.inl hupper))
        · omega
  rcases hclass with hdigit | halpha
  · exact isWordPart_of_isDigitOrGap (by simp [isDigitOrGap, hdigit])
  · exact isWordPart_of_isWordStart (by simp [isWordStart, halpha])

theorem Halts.isDigitOrGap {cs : List Char} (h : Breaks cs) : Halts isDigitOrGap cs :=
  h.mono fun _ => isWordPart_of_isDigitOrGap

/-! ## Powers of ten -/

/-- A complete power of ten. -/
def IsPower (p : List Char) : Prop :=
  ∃ m sign d ds, p = m :: (sign ++ d :: ds) ∧ (m = 'e' ∨ m = 'E') ∧ (sign = [] ∨ sign = ['+'] ∨ sign = ['-']) ∧
    isDigit d = true ∧ ∀ x ∈ ds, isDigitOrGap x = true

theorem takeWhile_digits {d : Char} {ds cs : List Char} {o : Nat} (hd : isDigit d = true)
    (hds : ∀ x ∈ ds, isDigitOrGap x = true) (hcs : Halts isDigitOrGap cs) :
    ((⟨d :: ds ++ cs, o⟩ : Cursor).takeWhile isDigitOrGap).2 = ⟨cs, o + byteLength (d :: ds)⟩ := by
  rw [Cursor.takeWhile_append _ hcs]
  intro x hx
  rcases List.mem_cons.1 hx with rfl | hx
  · simp [isDigitOrGap, hd]
  · exact hds x hx

theorem skipPower_of_isPower {p cs : List Char} {o : Nat} (hp : IsPower p) (hcs : Halts isDigitOrGap cs) :
    skipPower ⟨p ++ cs, o⟩ = ⟨cs, o + byteLength p⟩ := by
  obtain ⟨m, sign, d, ds, rfl, hm, hsign, hd, hds⟩ := hp
  have hnot : ¬ (d = '+' ∨ d = '-') := by
    rintro (rfl | rfl) <;> revert hd <;> decide
  have hdigits := fun o => takeWhile_digits (o := o) hd hds hcs
  simp only [List.cons_append] at hdigits
  rcases hsign with rfl | rfl | rfl <;>
    simp [skipPower, hm, hnot, hd, hdigits, Nat.add_assoc]

theorem skipPower_of_breaks {cs : List Char} {o : Nat} (hcs : Breaks cs) : skipPower ⟨cs, o⟩ = ⟨cs, o⟩ := by
  cases cs with
  | nil => rfl
  | cons c rest =>
      have hc : ¬ (c = 'e' ∨ c = 'E') := by
        rintro (rfl | rfl) <;> exact absurd (halts_cons.1 hcs) (by decide)
      simp only [skipPower, hc, if_false]

/-- Either nothing is skipped, or a complete power of ten comes next. -/
theorem skipPower_cases (cs : List Char) : (∀ o, skipPower ⟨cs, o⟩ = ⟨cs, o⟩) ∨
    ∃ p rest, cs = p ++ rest ∧ IsPower p ∧ Halts isDigitOrGap rest := by
  have hpower : ∀ (m : Char) (sign ds : List Char), m = 'e' ∨ m = 'E' →
      sign = [] ∨ sign = ['+'] ∨ sign = ['-'] → ds.head?.any isDigit = true →
      ∃ p rest, m :: (sign ++ ds) = p ++ rest ∧ IsPower p ∧ Halts isDigitOrGap rest := by
    intro m sign ds hm hsign hds
    cases ds with
    | nil => cases hds
    | cons d ds =>
        refine ⟨m :: (sign ++ d :: ds.takeWhile isDigitOrGap), ds.dropWhile isDigitOrGap, ?_,
          ⟨m, sign, d, _, rfl, hm, hsign, hds, List.all_eq_true.1 List.all_takeWhile⟩, halts_dropWhile _ _⟩
        simp
  cases cs with
  | nil => exact .inl fun _ => rfl
  | cons m rest =>
      by_cases hm : m = 'e' ∨ m = 'E'
      · cases rest with
        | nil => exact .inl fun o => by simp [skipPower, hm, Cursor.drop, Cursor.past]
        | cons s more =>
            by_cases hs : s = '+' ∨ s = '-'
            · cases hds : more.head?.any isDigit with
              | true => exact .inr (hpower m [s] more hm (by rcases hs with rfl | rfl <;> simp) hds)
              | false => exact .inl fun o => by simp [skipPower, hm, hs, hds]
            · cases hds : isDigit s with
              | true => exact .inr (hpower m [] (s :: more) hm (.inl rfl) (by simp [hds]))
              | false => exact .inl fun o => by simp [skipPower, hm, hs, hds]
      · exact .inl fun o => by simp only [skipPower, hm, if_false]

/-! ## Decimal numbers -/

/-- How a text that starts with a decimal number falls apart: digits, a fraction, a power of ten and the rest. -/
structure DecimalSplit (w f p rest : List Char) : Prop where
  whole : ∀ x ∈ w, isDigitOrGap x = true
  fraction : f = [] ∧ (p ++ rest).head? ≠ some '.' ∨ ∃ digits, f = '.' :: digits ∧ ∀ x ∈ digits, isDigitOrGap x = true
  halts : Halts isDigitOrGap (p ++ rest)
  power : p = [] ∨ IsPower p
  skip : ∀ o, skipPower ⟨p ++ rest, o⟩ = ⟨rest, o + byteLength p⟩

/-- Every text falls apart in this way. -/
theorem exists_decimalSplit (cs : List Char) : ∃ w f p rest, cs = w ++ (f ++ (p ++ rest)) ∧ DecimalSplit w f p rest := by
  have hwhole : ∀ x ∈ cs.takeWhile isDigitOrGap, isDigitOrGap x = true := List.all_eq_true.1 List.all_takeWhile
  have hpower : ∀ behind : List Char, ∃ p rest, behind = p ++ rest ∧ (p = [] ∨ IsPower p) ∧
      ∀ o, skipPower ⟨p ++ rest, o⟩ = ⟨rest, o + byteLength p⟩ := by
    intro behind
    rcases skipPower_cases behind with hnone | ⟨p, rest, rfl, hp, hrest⟩
    · exact ⟨[], behind, rfl, .inl rfl, hnone⟩
    · exact ⟨p, rest, rfl, .inr hp, fun o => skipPower_of_isPower hp hrest⟩
  by_cases hpoint : (cs.dropWhile isDigitOrGap).head? = some '.'
  · obtain ⟨behind, hbehind⟩ : ∃ behind, cs.dropWhile isDigitOrGap = '.' :: behind := by
      cases hdrop : cs.dropWhile isDigitOrGap with
      | nil => simp [hdrop] at hpoint
      | cons c behind =>
          simp only [hdrop, List.head?_cons, Option.some.injEq] at hpoint
          exact ⟨behind, by rw [hpoint]⟩
    obtain ⟨p, rest, heq, hp, hskip⟩ := hpower (behind.dropWhile isDigitOrGap)
    refine ⟨cs.takeWhile isDigitOrGap, '.' :: behind.takeWhile isDigitOrGap, p, rest, ?_, hwhole,
      .inr ⟨_, rfl, List.all_eq_true.1 List.all_takeWhile⟩, ?_, hp, hskip⟩
    · rw [← heq, List.cons_append, List.takeWhile_append_dropWhile, ← hbehind, List.takeWhile_append_dropWhile]
    · rw [← heq]
      exact halts_dropWhile _ _
  · obtain ⟨p, rest, heq, hp, hskip⟩ := hpower (cs.dropWhile isDigitOrGap)
    refine ⟨cs.takeWhile isDigitOrGap, [], p, rest, ?_, hwhole, .inl ⟨rfl, ?_⟩, ?_, hp, hskip⟩
    · rw [← heq, List.nil_append, List.takeWhile_append_dropWhile]
    · rwa [← heq]
    · rw [← heq]
      exact halts_dropWhile _ _

/-- What the scan makes of a decimal number. -/
theorem scanDecimal_eq {w f p rest : List Char} (h : DecimalSplit w f p rest) (o : Nat) :
    scanDecimal ⟨w ++ (f ++ (p ++ rest)), o⟩ =
      if rest.head?.any isWordStart then
        .error ⟨.wordAfterNumber, ⟨o, o + byteLength (w ++ (f ++ p)) + 1⟩⟩
      else
        match Decimal.readUnsigned? ((w ++ (f ++ p)).filter (· ≠ '_')) with
        | some x => .ok (x, ⟨rest, o + byteLength (w ++ (f ++ p))⟩)
        | none => .error ⟨.invalidNumber, ⟨o, o + byteLength (w ++ (f ++ p))⟩⟩ := by
  have hupTo : (⟨w ++ (f ++ (p ++ rest)), o⟩ : Cursor).upTo ⟨rest, o + byteLength (w ++ (f ++ p))⟩ =
      w ++ (f ++ p) := by
    have happend : w ++ (f ++ (p ++ rest)) = (w ++ (f ++ p)) ++ rest := by simp
    rw [happend, Cursor.upTo_append]
  rcases h.fraction with ⟨rfl, hpoint⟩ | ⟨digits, rfl, hdigits⟩
  · have htake := Cursor.takeWhile_append (o := o) h.whole h.halts
    simp only [List.nil_append, byteLength_append, Nat.add_assoc] at hupTo ⊢
    simp only [scanDecimal, htake, hpoint, if_false, h.skip, hupTo, Nat.add_assoc] <;> rfl
  · have hpoint : Halts isDigitOrGap ('.' :: digits ++ (p ++ rest)) := by
      simp [halts_cons, isDigitOrGap]
      decide
    have htake := Cursor.takeWhile_append (o := o) h.whole hpoint
    have htake' := fun o => Cursor.takeWhile_append (o := o) hdigits h.halts
    simp only [List.cons_append, byteLength_append, byteLength_cons, Nat.add_assoc] at hupTo htake ⊢
    simp only [scanDecimal, htake, List.head?_cons, if_true, Cursor.drop_one, htake', h.skip, hupTo,
      Nat.add_assoc] <;> rfl

/-! ## Numbers of every kind -/

/-- The radix that the start of a text announces. -/
def radixAt? : List Char → Option Nat
  | '0' :: mark :: _ => radixOf? mark
  | _ => none

theorem scanNumber_decimal {cs : List Char} (h : radixAt? cs = none) (o : Nat) :
    scanNumber ⟨cs, o⟩ = scanDecimal ⟨cs, o⟩ := by
  simp only [scanNumber]
  split
  · rename_i mark rest
    have hmark : radixOf? mark = none := h
    rw [hmark]
  · rfl

/-- A text that announces a radix. -/
theorem exists_of_radixAt? {cs : List Char} {radix : Nat} (h : radixAt? cs = some radix) :
    ∃ mark rest, cs = '0' :: mark :: rest ∧ radixOf? mark = some radix := by
  unfold radixAt? at h
  split at h
  · exact ⟨_, _, rfl, h⟩
  · cases h

theorem radixOf?_cases {mark : Char} {radix : Nat} (h : radixOf? mark = some radix) :
    radix ≤ 36 ∧ isWordPart mark = true ∧ isDigitOrGap mark = false := by
  unfold radixOf? at h
  split at h
  · rename_i hmark
    cases h
    rcases hmark with rfl | rfl <;> decide
  · split at h
    · rename_i hmark
      cases h
      rcases hmark with rfl | rfl <;> decide
    · split at h
      · rename_i hmark
        cases h
        rcases hmark with rfl | rfl <;> decide
      · cases h

/-- Whether a number announces a radix is seen from its own text. -/
theorem radixAt?_append {raw rest cs : List Char} (hraw : raw ≠ []) (h : radixAt? (raw ++ rest) = none)
    (hcs : Breaks cs) : radixAt? (raw ++ cs) = none := by
  cases hradix : radixAt? (raw ++ cs) with
  | none => rfl
  | some radix =>
      obtain ⟨mark, more, heq, hmark⟩ := exists_of_radixAt? hradix
      match raw, hraw with
      | [c], _ =>
          simp only [List.cons_append, List.nil_append, List.cons.injEq] at heq
          rw [heq.2, Breaks, halts_cons, (radixOf?_cases hmark).2.1] at hcs
          cases hcs
      | c :: c' :: raw, _ =>
          simp only [List.cons_append, List.cons.injEq] at heq
          obtain ⟨rfl, rfl, -⟩ := heq
          simp only [List.cons_append, radixAt?, hmark] at h
          cases h

/-- A text starts like a number. -/
def StartsNumber (cs : List Char) : Prop :=
  ∃ c rest, cs = c :: rest ∧ (isDigit c = true ∨ c = '.' ∧ rest.head?.any isDigit = true)

/-- A text that the scan reads as a number, in front of every text that continues neither a word nor, behind digits
alone, a fraction. -/
structure IsNumber (x : Float) (raw : List Char) : Prop where
  head : StartsNumber raw
  scan : ∀ cs o, Breaks cs → (raw.all isDigitOrGap = true → cs.head? ≠ some '.') →
    scanNumber ⟨raw ++ cs, o⟩ = .ok (x, ⟨cs, o + byteLength raw⟩)

/-- The digits of a whole number in a radix end where the word ends. -/
theorem scanRadix_append {radix : Nat} {chars cs : List Char} (start o : Nat)
    (hchars : ∀ d ∈ chars, (isDigitOf radix d || d = '_') = true) (hcs : Halts (fun d => isDigitOf radix d || d = '_') cs) :
    scanRadix start radix ⟨chars ++ cs, o⟩ =
      if (chars.filter (· ≠ '_')).isEmpty || Nat.pow 2 64 ≤ digitsValue radix (chars.filter (· ≠ '_')) then
        .error ⟨.invalidNumber, ⟨start, o + byteLength chars⟩⟩
      else .ok (Float.ofNat (digitsValue radix (chars.filter (· ≠ '_'))), ⟨cs, o + byteLength chars⟩) := by
  simp only [scanRadix, Cursor.takeWhile_append hchars hcs]

theorem isNumber_radix {mark : Char} {radix o : Nat} {rest : List Char} {x : Float} {next : Cursor}
    (hmark : radixOf? mark = some radix) (h : scanNumber ⟨'0' :: mark :: rest, o⟩ = .ok (x, next)) :
    ∃ raw, '0' :: mark :: rest = raw ++ next.rest ∧ next.offset = o + byteLength raw ∧ IsNumber x raw := by
  obtain ⟨hradix, -, hgap⟩ := radixOf?_cases hmark
  let p : Char → Bool := fun d => isDigitOf radix d || d = '_'
  have hchars : ∀ d ∈ rest.takeWhile p, p d = true := List.all_eq_true.1 List.all_takeWhile
  -- the same digits are found whatever follows them
  have hscan : ∀ cs o', Halts p cs → scanNumber ⟨'0' :: mark :: (rest.takeWhile p ++ cs), o'⟩ =
      scanRadix o' radix ⟨rest.takeWhile p ++ cs, o' + ('0'.utf8Size + mark.utf8Size)⟩ := by
    intro cs o' _
    simp only [scanNumber, hmark, Cursor.drop_two]
  have hsplit : rest = rest.takeWhile p ++ rest.dropWhile p := List.takeWhile_append_dropWhile.symm
  rw [hsplit, hscan _ _ (halts_dropWhile p rest), scanRadix_append _ _ hchars (halts_dropWhile p rest)] at h
  split at h
  · cases h
  · rename_i hvalue
    cases h
    refine ⟨'0' :: mark :: rest.takeWhile p, ?_, ?_, ?_, ?_⟩
    · simp
    · simp [Nat.add_assoc]
    · exact ⟨'0', _, rfl, .inl (by decide)⟩
    · intro cs o' hcs _
      have hhalts : Halts p cs := by
        refine hcs.mono fun d hd => ?_
        simp only [p, Bool.or_eq_true, decide_eq_true_eq] at hd
        rcases hd with hd | rfl
        · exact isWordPart_of_isDigitOf hradix hd
        · decide
      rw [List.cons_append, List.cons_append, hscan cs o' hhalts, scanRadix_append _ _ hchars hhalts, if_neg hvalue]
      simp [Nat.add_assoc]

/-- A decimal number is split in the same way whatever follows it. -/
theorem DecimalSplit.before {w f p rest cs : List Char} (h : DecimalSplit w f p rest) (hcs : Breaks cs)
    (hpoint : (w ++ (f ++ p)).all isDigitOrGap = true → cs.head? ≠ some '.') : DecimalSplit w f p cs := by
  obtain ⟨hw, hf, -, hp, -⟩ := h
  rcases hp with rfl | hp
  · refine ⟨hw, ?_, hcs.isDigitOrGap, .inl rfl, fun o => skipPower_of_breaks hcs⟩
    rcases hf with ⟨rfl, -⟩ | hf
    · exact .inl ⟨rfl, hpoint (by simpa [List.all_eq_true] using hw)⟩
    · exact .inr hf
  · obtain ⟨m, more, hpm, hm⟩ : ∃ m more, p = m :: more ∧ (m = 'e' ∨ m = 'E') := by
      obtain ⟨m, sign, d, ds, rfl, hm, -⟩ := hp
      exact ⟨m, _, rfl, hm⟩
    refine ⟨hw, ?_, ?_, .inr hp, fun o => skipPower_of_isPower hp hcs.isDigitOrGap⟩
    · rcases hf with ⟨rfl, -⟩ | hf
      · left
        rw [hpm]
        rcases hm with rfl | rfl <;> exact ⟨rfl, by simp⟩
      · exact .inr hf
    · rw [hpm, List.cons_append, halts_cons]
      rcases hm with rfl | rfl <;> decide

/-- A number in digits starts with one of them, or with a point and a digit. -/
theorem DecimalSplit.startsNumber {w f p rest : List Char} (h : DecimalSplit w f p rest)
    (hstart : StartsNumber (w ++ (f ++ (p ++ rest)))) : StartsNumber (w ++ (f ++ p)) := by
  obtain ⟨c, more, heq, hc⟩ := hstart
  cases w with
  | cons c' w =>
      simp only [List.cons_append, List.cons.injEq] at heq
      obtain ⟨rfl, -⟩ := heq
      refine ⟨c', _, rfl, .inl ?_⟩
      rcases hc with hc | ⟨rfl, -⟩
      · exact hc
      · exact absurd (h.whole '.' List.mem_cons_self) (by decide)
  | nil =>
      rcases h.fraction with ⟨rfl, hpoint⟩ | ⟨digits, rfl, -⟩
      · simp only [List.nil_append] at heq
        have hhalts := h.halts
        rw [heq, halts_cons] at hhalts
        rcases hc with hc | ⟨rfl, -⟩
        · simp [isDigitOrGap, hc] at hhalts
        · simp [heq] at hpoint
      · simp only [List.nil_append, List.cons_append, List.cons.injEq] at heq
        obtain ⟨rfl, rfl⟩ := heq
        refine ⟨'.', digits ++ p, rfl, .inr ⟨rfl, ?_⟩⟩
        have hdigit : (digits ++ (p ++ rest)).head?.any isDigit = true := by
          rcases hc with hc | ⟨-, hc⟩
          · exact absurd hc (by decide)
          · exact hc
        cases digits with
        | nil =>
            have hhalts := h.halts
            simp only [List.nil_append] at hdigit
            cases hrest : p ++ rest with
            | nil => simp [hrest] at hdigit
            | cons d more =>
                rw [hrest, halts_cons] at hhalts
                rw [hrest, List.head?_cons, Option.any_some] at hdigit
                simp [isDigitOrGap, hdigit] at hhalts
        | cons d digits => exact hdigit

theorem isNumber_decimal {cs : List Char} {o : Nat} {x : Float} {next : Cursor} (hstart : StartsNumber cs)
    (hradix : radixAt? cs = none) (h : scanDecimal ⟨cs, o⟩ = .ok (x, next)) :
    ∃ raw, cs = raw ++ next.rest ∧ next.offset = o + byteLength raw ∧ IsNumber x raw := by
  obtain ⟨w, f, p, rest, rfl, hsplit⟩ := exists_decimalSplit cs
  rw [scanDecimal_eq hsplit] at h
  split at h
  · cases h
  split at h
  · rename_i value hvalue
    cases h
    have hhead := hsplit.startsNumber hstart
    have happend : w ++ (f ++ (p ++ rest)) = (w ++ (f ++ p)) ++ rest := by simp
    refine ⟨w ++ (f ++ p), happend, rfl, hhead, ?_⟩
    intro cs o' hcs hpoint
    have hne : w ++ (f ++ p) ≠ [] := by
      obtain ⟨c, more, heq, -⟩ := hhead
      rw [heq]
      exact List.cons_ne_nil c more
    have hstarts : Option.any isWordStart cs.head? = false := by
      cases cs with
      | nil => rfl
      | cons c cs =>
          have hpart := halts_cons.1 hcs
          cases hc : isWordStart c with
          | false => exact hc
          | true =>
              rw [isWordPart_of_isWordStart hc] at hpart
              cases hpart
    rw [scanNumber_decimal (radixAt?_append hne (happend ▸ hradix) hcs)]
    have hbefore := scanDecimal_eq (hsplit.before hcs hpoint) o'
    rw [hstarts, hvalue] at hbefore
    simpa using hbefore
  · cases h

/-- What the scan has found to be a number, it finds again. -/
theorem scanNumber_isNumber {cs : List Char} {o : Nat} {x : Float} {next : Cursor} (hstart : StartsNumber cs)
    (h : scanNumber ⟨cs, o⟩ = .ok (x, next)) :
    ∃ raw, cs = raw ++ next.rest ∧ next.offset = o + byteLength raw ∧ IsNumber x raw := by
  cases hradix : radixAt? cs with
  | none => exact isNumber_decimal hstart hradix (scanNumber_decimal hradix o ▸ h)
  | some radix =>
      obtain ⟨mark, rest, rfl, hmark⟩ := exists_of_radixAt? hradix
      exact isNumber_radix hmark h

/-! ## Numbers as lexemes -/

/-- A number with its text. -/
def Lexeme.number (x : Float) (raw : List Char) : Lexeme := ⟨.number x, raw⟩

/-- Where a text starts like a number, nothing is skipped. -/
theorem skipTrivia_of_startsNumber {cs : List Char} (h : StartsNumber cs) (o : Nat) (newline : Bool) :
    skipTrivia .code o newline cs = .ok (newline, ⟨cs, o⟩) := by
  obtain ⟨c, rest, rfl, hc⟩ := h
  have hrange : 46 ≤ c.toNat ∧ c.toNat ≤ 57 ∧ c ≠ '/' := by
    rcases hc with hc | ⟨rfl, -⟩
    · have hdigit := toNat_of_isDigit hc
      refine ⟨by omega, by omega, ?_⟩
      rintro rfl
      revert hc
      decide
    · decide
  have hnarrow : ¬ 0x80 ≤ c.toNat := by omega
  have hblank : isAsciiBlank c = false := by
    cases hb : isAsciiBlank c with
    | false => rfl
    | true =>
        simp only [isAsciiBlank, Bool.or_eq_true, decide_eq_true_eq] at hb
        rcases hb with (((rfl | rfl) | rfl) | rfl) | rfl <;> revert hrange <;> decide
  have hline : c ≠ '\n' := by
    rintro rfl
    revert hrange
    decide
  exact skipTrivia_of_solid (fun hslash => absurd hslash hrange.2.2) hline hblank (by simp [hnarrow]) o newline

/-- Where a text starts like a number, the scan looks for one. -/
theorem scanKind_of_startsNumber {cs : List Char} (h : StartsNumber cs) (d : Depths) (o : Nat) :
    scanKind d ⟨cs, o⟩ = (scanNumber ⟨cs, o⟩).map fun (value, next) => (.number value, d, next) := by
  obtain ⟨c, rest, rfl, hc⟩ := h
  have hrange : 46 ≤ c.toNat ∧ c.toNat ≤ 57 := by
    rcases hc with hc | ⟨rfl, -⟩
    · have hdigit := toNat_of_isDigit hc
      omega
    · decide
  have hquote : (c = '"' || c = '\'' : Bool) = false := by
    cases hq : (c = '"' || c = '\'' : Bool) with
    | false => rfl
    | true =>
        simp only [Bool.or_eq_true, decide_eq_true_eq] at hq
        rcases hq with rfl | rfl <;> revert hrange <;> decide
  have htick : c.toNat ≠ 96 := by omega
  rcases hc with hc | ⟨rfl, hrest⟩
  · simp only [scanKind, hquote, htick, hc, Bool.false_eq_true, if_false, if_true]
  · have hpoint : isDigit '.' = false := by decide
    simp only [scanKind, hquote, htick, hpoint, hrest, decide_true, Bool.true_and, Bool.false_eq_true, if_false,
      if_true]

theorem StartsNumber.append {raw : List Char} (h : StartsNumber raw) (cs : List Char) : StartsNumber (raw ++ cs) := by
  obtain ⟨c, rest, rfl, hc⟩ := h
  refine ⟨c, rest ++ cs, rfl, ?_⟩
  rcases hc with hc | ⟨rfl, hrest⟩
  · exact .inl hc
  · cases rest with
    | nil => cases hrest
    | cons d rest => exact .inr ⟨rfl, hrest⟩

theorem Lexeme.number_scans {x : Float} {raw cs : List Char} (h : IsNumber x raw) (hcs : Breaks cs)
    (hpoint : raw.all isDigitOrGap = true → cs.head? ≠ some '.') (d : Depths) : (number x raw).Scans d d cs := by
  have hstart := h.head.append cs
  refine ⟨?_, rfl, skipTrivia_of_startsNumber hstart, fun o => ?_⟩
  · obtain ⟨c, rest, rfl, -⟩ := h.head
    exact List.cons_ne_nil c rest
  · simp only [number] at hstart ⊢
    rw [scanKind_of_startsNumber hstart d o, h.scan cs o hcs hpoint]
    rfl

/-! ## Digits in front of a point and a word

Digits alone do not end in front of a point: the point, and a start of the word behind it, become part of the
number.
-/

/-- A text that continues neither a word nor a power of ten. -/
def Clear (cs : List Char) : Prop :=
  Breaks cs ∧ ∀ s d more, cs = s :: d :: more → s = '+' ∨ s = '-' → isDigit d = false

/-- A power of ten does not reach beyond a word. -/
theorem IsPower.within {p rest name cs : List Char} (hp : IsPower p) (hname : ∀ x ∈ name, isWordPart x = true)
    (hcs : Clear cs) (heq : p ++ rest = name ++ cs) : ∃ more, name = p ++ more ∧ rest = more ++ cs := by
  rcases List.append_eq_append_iff.1 heq with ⟨more, hname', hrest⟩ | ⟨beyond, hp', hcs'⟩
  · exact ⟨more, hname', hrest⟩
  cases beyond with
  | nil => exact ⟨[], by simpa using hp'.symm, by simpa using hcs'.symm⟩
  | cons c beyond =>
      exfalso
      have hc : isWordPart c = false := by
        have hbreaks := hcs.1
        rwa [hcs', List.cons_append, Breaks, halts_cons] at hbreaks
      obtain ⟨m, sign, d, ds, rfl, hm, hsign, hd, hds⟩ := hp
      have hdigits : ∀ x ∈ d :: ds, isWordPart x = true := by
        intro x hx
        rcases List.mem_cons.1 hx with rfl | hx
        · exact isWordPart_of_isDigitOrGap (by simp [isDigitOrGap, hd])
        · exact isWordPart_of_isDigitOrGap (hds x hx)
      -- the only character of a power that continues no word is its sign
      cases name with
      | nil =>
          simp only [List.nil_append, List.cons.injEq] at hp'
          rw [← hp'.1] at hc
          rcases hm with rfl | rfl <;> revert hc <;> decide
      | cons n name =>
          simp only [List.cons_append, List.cons.injEq] at hp'
          obtain ⟨-, htail⟩ := hp'
          cases sign with
          | nil =>
              have hmem : c ∈ d :: ds := by
                rw [List.nil_append] at htail
                rw [htail]
                simp
              rw [hdigits c hmem] at hc
              cases hc
          | cons s sign =>
              have hs : (s = '+' ∨ s = '-') ∧ sign = [] := by
                simp only [List.cons.injEq, reduceCtorEq, false_or] at hsign
                rcases hsign with ⟨hs, hsign⟩ | ⟨hs, hsign⟩
                · exact ⟨.inl hs, hsign⟩
                · exact ⟨.inr hs, hsign⟩
              obtain ⟨hs, rfl⟩ := hs
              cases name with
              | nil =>
                  simp only [List.cons_append, List.nil_append, List.cons.injEq] at htail
                  obtain ⟨rfl, htail⟩ := htail
                  have hdigit := hcs.2 s d (ds ++ rest) (by rw [hcs', List.cons_append, ← htail]; rfl) hs
                  rw [hd] at hdigit
                  cases hdigit
              | cons n' name =>
                  simp only [List.cons_append, List.nil_append, List.cons.injEq] at htail
                  have hmem : c ∈ d :: ds := by
                    rw [htail.2]
                    simp
                  rw [hdigits c hmem] at hc
                  cases hc

/-- Digits in front of a point and a word are no number of their own: the scan fails, or the number takes the point,
and what is left of the word starts with none of ASCII's characters. -/
theorem scanNumber_fused {raw name cs : List Char} (hstart : StartsNumber raw) (hraw : ∀ x ∈ raw, isDigitOrGap x = true)
    (hname : ∀ x ∈ name, isWordPart x = true) (hcs : Clear cs) (o : Nat) :
    (∃ fault, scanNumber ⟨raw ++ '.' :: (name ++ cs), o⟩ = .error fault) ∨
      ∃ x u o', scanNumber ⟨raw ++ '.' :: (name ++ cs), o⟩ = .ok (x, ⟨u ++ cs, o'⟩) ∧
        u <:+ name ∧ Halts isWordStart u ∧ Halts isDigitOrGap u := by
  have hradix : radixAt? (raw ++ '.' :: (name ++ cs)) = none := by
    cases hradix : radixAt? (raw ++ '.' :: (name ++ cs)) with
    | none => rfl
    | some radix =>
        obtain ⟨mark, rest, heq, hmark⟩ := exists_of_radixAt? hradix
        have hgap := (radixOf?_cases hmark).2.2
        obtain ⟨c, more, rfl, -⟩ := hstart
        cases more with
        | nil =>
            simp only [List.cons_append, List.nil_append, List.cons.injEq] at heq
            rw [← heq.2.1] at hmark
            cases hmark
        | cons c' more =>
            simp only [List.cons_append, List.cons.injEq] at heq
            rw [← heq.2.1, hraw c' (by simp)] at hgap
            cases hgap
  rw [scanNumber_decimal hradix]
  -- the digits and gaps at the start of the word, and a power of ten behind them
  obtain ⟨p, u, hp, hu, hhalts, hskip, hmore⟩ : ∃ p u, (p = [] ∨ IsPower p) ∧ name.dropWhile isDigitOrGap = p ++ u ∧
      Halts isDigitOrGap (p ++ (u ++ cs)) ∧ (∀ o, skipPower ⟨p ++ (u ++ cs), o⟩ = ⟨u ++ cs, o + byteLength p⟩) ∧
      Halts isDigitOrGap u := by
    have hfirst : Halts isDigitOrGap (name.dropWhile isDigitOrGap ++ cs) := by
      have hdrop := halts_dropWhile isDigitOrGap name
      cases hname' : name.dropWhile isDigitOrGap with
      | nil => exact hcs.1.isDigitOrGap
      | cons c more =>
          rw [hname', halts_cons] at hdrop
          exact halts_cons.2 hdrop
    have hdropped : ∀ x ∈ name.dropWhile isDigitOrGap, isWordPart x = true :=
      fun x hx => hname x ((List.dropWhile_sublist _).mem hx)
    rcases skipPower_cases (name.dropWhile isDigitOrGap ++ cs) with hnone | ⟨p, rest, heq, hp, hrest⟩
    · exact ⟨[], _, .inl rfl, rfl, hfirst, hnone, halts_dropWhile _ _⟩
    · obtain ⟨more, hmore, rfl⟩ := hp.within hdropped hcs heq.symm
      refine ⟨p, more, .inr hp, hmore, ?_, fun o => skipPower_of_isPower hp hrest, ?_⟩
      · rwa [← heq]
      · cases more with
        | nil => exact halts_nil _
        | cons c more => exact halts_cons.2 (halts_cons.1 hrest)
  have hsplit : DecimalSplit raw ('.' :: name.takeWhile isDigitOrGap) p (u ++ cs) :=
    ⟨hraw, .inr ⟨_, rfl, List.all_eq_true.1 List.all_takeWhile⟩, hhalts, hp, hskip⟩
  have htext : raw ++ '.' :: (name ++ cs) = raw ++ ('.' :: name.takeWhile isDigitOrGap ++ (p ++ (u ++ cs))) := by
    have hname' : name.takeWhile isDigitOrGap ++ (p ++ u) = name := by
      rw [← hu, List.takeWhile_append_dropWhile]
    rw [← congrArg (· ++ cs) hname']
    simp
  rw [htext, scanDecimal_eq hsplit]
  split
  · exact .inl ⟨_, rfl⟩
  · rename_i hword
    split
    · refine .inr ⟨_, u, _, rfl, ?_, ?_, hmore⟩
      · exact ⟨name.takeWhile isDigitOrGap ++ p, by rw [List.append_assoc, ← hu, List.takeWhile_append_dropWhile]⟩
      · cases u with
        | nil => exact halts_nil _
        | cons c u => simpa [halts_cons] using hword
    · exact .inl ⟨_, rfl⟩

end FieldScript.Token
