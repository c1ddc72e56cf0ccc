import FieldScript.Schema.Token
import FieldScript.Proofs.Token.Lexeme

/-!
# Numbers of a schema

The scan of a number goes through a sign, digits, a fraction and a power of ten, of which all but the digits may be
missing. A text of this form is read as that number in front of every character that would not become a part of it.

* `scanNumber_form`: what is read as a number has the form.
* `scanNumber_append`: what has the form is read as a number.
-/

namespace FieldScript.Schema

open FieldScript.Text
open FieldScript.Token (Halts halts_nil halts_cons halts_dropWhile)

/-! ## Moves of a cursor -/

/-- A cursor behind a text that starts at another one. -/
structure Moves (c : Cursor) (w : List Char) (next : Cursor) : Prop where
  rest : c.rest = w ++ next.rest
  offset : next.offset = c.offset + byteLength w

namespace Moves

variable {c mid next : Cursor} {w w' : List Char} {x : Char} {o : Nat}

theorem refl (c : Cursor) : Moves c [] c := ⟨rfl, rfl⟩

theorem trans (h : Moves c w mid) (h' : Moves mid w' next) : Moves c (w ++ w') next :=
  ⟨by rw [h.rest, h'.rest, List.append_assoc], by rw [h'.offset, h.offset, byteLength_append, Nat.add_assoc]⟩

/-- A move behind one more character. -/
theorem cons {cs : List Char} (h : Moves ⟨cs, o + x.utf8Size⟩ w next) : Moves ⟨x :: cs, o⟩ (x :: w) next :=
  ⟨congrArg (x :: ·) h.rest, by rw [h.offset, byteLength_cons, Nat.add_assoc]⟩

theorem drop (c : Cursor) (n : Nat) : Moves c (c.rest.take n) (c.drop n) :=
  ⟨(List.take_append_drop n c.rest).symm, rfl⟩

theorem upTo_eq (h : Moves c w next) : c.upTo next = w := by
  rw [Cursor.upTo, h.rest, List.length_append, Nat.add_sub_cancel, List.take_left]

end Moves

namespace Cursor

variable {p : Char → Bool} {w cs : List Char} {o : Nat}

theorem takeWhile_append (hw : ∀ c ∈ w, p c = true) (hcs : Halts p cs) :
    (⟨w ++ cs, o⟩ : Cursor).takeWhile p = (w, ⟨cs, o + byteLength w⟩) := by
  have htake : (w ++ cs).takeWhile p = w := by
    rw [List.takeWhile_append_of_pos hw, hcs.takeWhile_eq, List.append_nil]
  have hdrop : (w ++ cs).dropWhile p = cs := by
    rw [List.dropWhile_append_of_pos hw, hcs.dropWhile_eq]
  simp only [Cursor.takeWhile, htake, hdrop]

theorem drop_append {n : Nat} (hn : w.length = n) : (⟨w ++ cs, o⟩ : Cursor).drop n = ⟨cs, o + byteLength w⟩ := by
  subst hn
  simp [drop]

@[simp] theorem drop_one {x : Char} : (⟨x :: cs, o⟩ : Cursor).drop 1 = ⟨cs, o + x.utf8Size⟩ := rfl

end Cursor

/-- A computation in two parts that succeeds. -/
theorem exists_of_bind {ε α β : Type} {x : Except ε α} {k : α → Except ε β} {b : β} (h : x >>= k = .ok b) :
    ∃ a, x = .ok a ∧ k a = .ok b := by
  cases x with
  | error fault => cases h
  | ok a => exact ⟨a, rfl, h⟩

/-! ## The parts of a number -/

/-- Digits, of which there is at least one. -/
def IsDigits (ds : List Char) : Prop := ds ≠ [] ∧ ∀ d ∈ ds, isDigit d = true

/-- The letters that a power of ten starts with. -/
def isPowerMark (x : Char) : Bool := x = 'e' || x = 'E'

/-- A point and digits, or nothing. -/
inductive IsFraction : List Char → Prop
  | none : IsFraction []
  | digits {ds : List Char} (h : IsDigits ds) : IsFraction ('.' :: ds)

/-- A letter, a sign and digits, or nothing. The sign may be missing. -/
inductive IsPower : List Char → Prop
  | none : IsPower []
  | digits {mark : Char} {sign ds : List Char} (hmark : isPowerMark mark = true)
      (hsign : sign = [] ∨ sign = ['+'] ∨ sign = ['-']) (h : IsDigits ds) : IsPower (mark :: (sign ++ ds))

variable {start extra o : Nat} {c next : Cursor} {ds f p rest : List Char}

theorem isDigit_mark : isDigit '-' = false ∧ isDigit '+' = false ∧ isDigit '.' = false := by decide

theorem isDigit_of_isPowerMark {x : Char} (h : isPowerMark x = true) : isDigit x = false := by
  simp only [isPowerMark, Bool.or_eq_true, decide_eq_true_eq] at h
  rcases h with rfl | rfl <;> decide

/-- Digits start with a digit. -/
theorem IsDigits.exists_cons (h : IsDigits ds) : ∃ d ds', ds = d :: ds' ∧ isDigit d = true := by
  obtain ⟨d, ds', rfl⟩ := List.exists_cons_of_ne_nil h.1
  exact ⟨d, ds', rfl, h.2 d List.mem_cons_self⟩

theorem scanDigits_form (h : scanDigits start extra c = .ok next) :
    ∃ ds, IsDigits ds ∧ Moves c ds next ∧ Halts isDigit next.rest := by
  unfold scanDigits at h
  dsimp only at h
  split at h
  · cases h
  · rename_i hempty
    cases h
    rw [List.isEmpty_iff] at hempty
    refine ⟨c.rest.takeWhile isDigit, ⟨hempty, List.all_eq_true.1 List.all_takeWhile⟩, ?_, halts_dropWhile _ _⟩
    exact ⟨List.takeWhile_append_dropWhile.symm, rfl⟩

theorem scanDigits_append (hds : IsDigits ds) (hrest : Halts isDigit rest) :
    scanDigits start extra ⟨ds ++ rest, o⟩ = .ok ⟨rest, o + byteLength ds⟩ := by
  have hne : ds.isEmpty = false := by
    rw [List.isEmpty_eq_false_iff]
    exact hds.1
  simp only [scanDigits, Cursor.takeWhile_append hds.2 hrest, hne, Bool.false_eq_true, if_false]

/-- A fraction, if there is one. -/
def scanFraction (start : Nat) (c : Cursor) : Scan Cursor :=
  if c.rest.head? = some '.' then scanDigits start 0 (c.drop 1) else .ok c

/-- A power of ten, if there is one. -/
def scanPower (start : Nat) (c : Cursor) : Scan Cursor :=
  if c.rest.head? = some 'e' ∨ c.rest.head? = some 'E' then
    scanDigits start 0
      (if (c.drop 1).rest.head? = some '+' ∨ (c.drop 1).rest.head? = some '-' then (c.drop 1).drop 1 else c.drop 1)
  else .ok c

theorem bind_ite {α β : Type} (q : Prop) [Decidable q] (x y : Scan α) (k : α → Scan β) :
    (if q then x else y) >>= k = if q then x >>= k else y >>= k :=
  apply_ite (· >>= k) q x y

/-- A number is read part by part. -/
theorem scanNumber_eq (c : Cursor) : scanNumber c = (do
    let whole ← scanDigits c.offset 1 (if c.rest.head? = some '-' then c.drop 1 else c)
    let fraction ← scanFraction c.offset whole
    let next ← scanPower c.offset fraction
    let text := String.ofList (c.upTo next)
    return (if whole.rest.head? = some '.' ∨ fraction.rest.head? = some 'e' ∨ fraction.rest.head? = some 'E' then
      .float text else .int text, next)) := by
  simp only [scanNumber, scanFraction, scanPower, bind_ite]

theorem scanFraction_form (h : scanFraction start c = .ok next) (hc : Halts isDigit c.rest) :
    ∃ f, IsFraction f ∧ Moves c f next ∧ Halts isDigit next.rest ∧ (f = [] ↔ c.rest.head? ≠ some '.') := by
  unfold scanFraction at h
  split at h
  · rename_i hpoint
    obtain ⟨rest, hrest⟩ := List.head?_eq_some_iff.1 hpoint
    obtain ⟨ds, hds, hmoves, hhalts⟩ := scanDigits_form h
    refine ⟨'.' :: ds, .digits hds, ?_, hhalts, by simp [hpoint]⟩
    have hfirst := Moves.drop c 1
    rw [hrest] at hfirst
    exact hfirst.trans hmoves
  · rename_i hpoint
    cases h
    exact ⟨[], .none, .refl _, hc, by simpa using hpoint⟩

theorem scanFraction_append (hf : IsFraction f) (hrest : Halts isDigit rest) (hpoint : f = [] → rest.head? ≠ some '.') :
    scanFraction start ⟨f ++ rest, o⟩ = .ok ⟨rest, o + byteLength f⟩ := by
  cases hf with
  | none => exact if_neg (hpoint rfl)
  | digits hds =>
      simp only [scanFraction, List.cons_append, List.head?_cons, if_pos, Cursor.drop_one, scanDigits_append hds hrest,
        byteLength_cons, Nat.add_assoc]

theorem scanPower_form (h : scanPower start c = .ok next) (hc : Halts isDigit c.rest) :
    ∃ p, IsPower p ∧ Moves c p next ∧ Halts isDigit next.rest ∧ (p = [] ↔ Halts isPowerMark c.rest) := by
  unfold scanPower at h
  split at h
  · rename_i hmark
    obtain ⟨mark, hletter, rest, hrest⟩ : ∃ mark, isPowerMark mark = true ∧ ∃ rest, c.rest = mark :: rest := by
      rcases hmark with hmark | hmark
      · exact ⟨'e', rfl, List.head?_eq_some_iff.1 hmark⟩
      · exact ⟨'E', rfl, List.head?_eq_some_iff.1 hmark⟩
    have hfirst : Moves c [mark] (c.drop 1) := by
      have hmoves := Moves.drop c 1
      rwa [hrest] at hmoves
    obtain ⟨ds, hds, hmoves, hhalts⟩ := scanDigits_form h
    have hno : Halts isPowerMark c.rest → False := by
      intro hhalts'
      rw [hrest, halts_cons, hletter] at hhalts'
      cases hhalts'
    split at hmoves
    · rename_i hsign
      have hsecond := Moves.drop (c.drop 1) 1
      rcases hsign with hsign | hsign
      · obtain ⟨rest', hrest'⟩ := List.head?_eq_some_iff.1 hsign
        rw [hrest'] at hsecond
        refine ⟨mark :: (['+'] ++ ds), .digits hletter (.inr (.inl rfl)) hds, hfirst.trans (hsecond.trans hmoves), hhalts, ?_⟩
        exact ⟨nofun, fun h => (hno h).elim⟩
      · obtain ⟨rest', hrest'⟩ := List.head?_eq_some_iff.1 hsign
        rw [hrest'] at hsecond
        refine ⟨mark :: (['-'] ++ ds), .digits hletter (.inr (.inr rfl)) hds, hfirst.trans (hsecond.trans hmoves), hhalts, ?_⟩
        exact ⟨nofun, fun h => (hno h).elim⟩
    · refine ⟨mark :: ([] ++ ds), .digits hletter (.inl rfl) hds, hfirst.trans hmoves, hhalts, ?_⟩
      exact ⟨nofun, fun h => (hno h).elim⟩
  · rename_i hmark
    cases h
    refine ⟨[], .none, .refl _, hc, fun _ x hx => ?_, fun _ => rfl⟩
    rw [Option.mem_def] at hx
    rw [hx] at hmark
    simpa [isPowerMark] using hmark

theorem scanPower_append (hp : IsPower p) (hrest : Halts isDigit rest) (hmark : p = [] → Halts isPowerMark rest) :
    scanPower start ⟨p ++ rest, o⟩ = .ok ⟨rest, o + byteLength p⟩ := by
  unfold scanPower
  cases hp with
  | none =>
      refine if_neg ?_
      rintro (hhead | hhead)
      · cases hmark rfl 'e' hhead
      · cases hmark rfl 'E' hhead
  | digits hletter hsign hds =>
      rename_i mark sign ds
      have hletter' : some mark = some 'e' ∨ some mark = some 'E' := by
        simpa [isPowerMark] using hletter
      have hcursor : (⟨mark :: (sign ++ ds) ++ rest, o⟩ : Cursor).drop 1 = ⟨sign ++ (ds ++ rest), o + mark.utf8Size⟩ := by
        rw [← List.append_assoc]
        rfl
      show (if some mark = some 'e' ∨ some mark = some 'E' then _ else _) = _
      rw [if_pos hletter', hcursor, byteLength_cons, byteLength_append]
      rcases hsign with rfl | rfl | rfl
      · have hplain : ¬ ((ds ++ rest).head? = some '+' ∨ (ds ++ rest).head? = some '-') := by
          obtain ⟨d, ds', rfl, hd⟩ := hds.exists_cons
          rintro (heq | heq) <;> cases heq <;> cases hd
        rw [List.nil_append, if_neg hplain, scanDigits_append hds hrest, byteLength_nil, Nat.zero_add, Nat.add_assoc]
      · rw [if_pos (.inl rfl), List.singleton_append, Cursor.drop_one, scanDigits_append hds hrest]
        simp [Nat.add_assoc]
      · rw [if_pos (.inr rfl), List.singleton_append, Cursor.drop_one, scanDigits_append hds hrest]
        simp [Nat.add_assoc]

/-! ## Numbers -/

/-- The parts of a number. -/
structure NumberForm where
  sign : List Char
  whole : List Char
  fraction : List Char
  power : List Char
  hsign : sign = [] ∨ sign = ['-']
  hwhole : IsDigits whole
  hfraction : IsFraction fraction
  hpower : IsPower power

namespace NumberForm

/-- The parts one behind another. -/
def text (n : NumberForm) : List Char := n.sign ++ (n.whole ++ (n.fraction ++ n.power))

/-- What a number is read as. -/
def kind (n : NumberForm) : TokenKind :=
  if n.fraction = [] ∧ n.power = [] then .int (String.ofList n.text) else .float (String.ofList n.text)

/-- The characters that would become a part of a number. -/
def runsInto (n : NumberForm) (x : Char) : Bool :=
  isDigit x || (n.power.isEmpty && (isPowerMark x || (n.fraction.isEmpty && x = '.')))

theorem text_ne_nil (n : NumberForm) : n.text ≠ [] := by
  obtain ⟨d, ds, hds, -⟩ := n.hwhole.exists_cons
  simp [text, hds]

/-- The number at a cursor, if its sign is taken for granted. -/
theorem unsigned_append (n : NumberForm) (o : Nat) (rest : List Char) :
    (if (⟨n.text ++ rest, o⟩ : Cursor).rest.head? = some '-' then (⟨n.text ++ rest, o⟩ : Cursor).drop 1
      else ⟨n.text ++ rest, o⟩) = ⟨n.whole ++ (n.fraction ++ n.power) ++ rest, o + byteLength n.sign⟩ := by
  obtain ⟨d, ds, hds, hd⟩ := n.hwhole.exists_cons
  rcases n.hsign with hsign | hsign
  · have hplain : ¬ some d = some '-' := by
      intro heq
      cases heq
      cases hd
    simp only [text, hsign, hds, List.nil_append, List.cons_append, List.head?_cons, if_neg hplain, byteLength_nil,
      Nat.add_zero]
  · simp only [text, hsign, List.cons_append, List.nil_append, List.head?_cons, if_pos, Cursor.drop_one, byteLength_cons,
      byteLength_nil, Nat.add_zero]

end NumberForm

/-- A point and a letter are no digits, so that neither a fraction nor a power goes on with the digits in front. -/
theorem IsPower.halts (hp : IsPower p) (hrest : Halts isDigit rest) : Halts isDigit (p ++ rest) := by
  cases hp with
  | none => exact hrest
  | digits hmark _ _ => exact halts_cons.2 (isDigit_of_isPowerMark hmark)

theorem IsFraction.halts (hf : IsFraction f) (hrest : Halts isDigit rest) : Halts isDigit (f ++ rest) := by
  cases hf with
  | none => exact hrest
  | digits _ => exact halts_cons.2 isDigit_mark.2.2

theorem IsFraction.exists_cons (hf : IsFraction f) (hne : f ≠ []) : ∃ ds, f = '.' :: ds := by
  cases hf with
  | none => exact absurd rfl hne
  | digits _ => exact ⟨_, rfl⟩

theorem IsPower.head? (hp : IsPower p) (hne : p ≠ []) (rest : List Char) :
    ∃ mark, isPowerMark mark = true ∧ (p ++ rest).head? = some mark := by
  cases hp with
  | none => exact absurd rfl hne
  | digits hmark _ _ => exact ⟨_, hmark, rfl⟩

theorem isPowerMark_iff {cs : List Char} : (cs.head? = some 'e' ∨ cs.head? = some 'E') ↔ ¬ Halts isPowerMark cs := by
  cases cs with
  | nil => simp [Halts]
  | cons x rest => simp [halts_cons, isPowerMark, Decidable.or_iff_not_imp_left]

theorem scanNumber_append (n : NumberForm) (o : Nat) (hrest : Halts n.runsInto rest) :
    scanNumber ⟨n.text ++ rest, o⟩ = .ok (n.kind, ⟨rest, o + byteLength n.text⟩) := by
  have hdigit : Halts isDigit rest := hrest.mono fun x hx => by simp [NumberForm.runsInto, hx]
  have hpower := n.hpower.halts hdigit
  have hmark : n.power = [] → Halts isPowerMark rest := fun hnone =>
    hrest.mono fun x hx => by simp [NumberForm.runsInto, hnone, hx]
  have hpoint : n.fraction = [] → (n.power ++ rest).head? ≠ some '.' := by
    intro hnone
    by_cases hp : n.power = []
    · intro hhead
      rw [hp] at hhead
      have hno := hrest '.' hhead
      simp [NumberForm.runsInto, hnone, hp] at hno
    · obtain ⟨mark, hletter, hhead⟩ := n.hpower.head? hp rest
      rw [hhead]
      intro heq
      cases heq
      cases hletter
  have hpointed : (n.fraction ++ (n.power ++ rest)).head? = some '.' ↔ n.fraction ≠ [] := by
    by_cases hf : n.fraction = []
    · simpa [hf] using hpoint hf
    · obtain ⟨ds, hds⟩ := n.hfraction.exists_cons hf
      simp [hds]
  have hpowered : ((n.power ++ rest).head? = some 'e' ∨ (n.power ++ rest).head? = some 'E') ↔ n.power ≠ [] := by
    rw [isPowerMark_iff]
    by_cases hp : n.power = []
    · simpa [hp] using hmark hp
    · obtain ⟨mark, hletter, hhead⟩ := n.hpower.head? hp rest
      refine iff_of_true (fun hhalts => ?_) hp
      cases hletter.symm.trans (hhalts mark hhead)
  have hend : o + byteLength n.sign + byteLength n.whole + byteLength n.fraction + byteLength n.power =
      o + byteLength n.text := by
    simp only [NumberForm.text, byteLength_append]
    omega
  have hmoves : Moves ⟨n.text ++ rest, o⟩ n.text ⟨rest, o + byteLength n.text⟩ := ⟨rfl, rfl⟩
  have hbind : ∀ {α β : Type} (a : α) (k : α → Scan β), ((.ok a : Scan α) >>= k) = k a := fun _ _ => rfl
  rw [scanNumber_eq, n.unsigned_append o rest, List.append_assoc, List.append_assoc,
    scanDigits_append n.hwhole (n.hfraction.halts hpower)]
  simp only [hbind, scanFraction_append n.hfraction hpower hpoint, scanPower_append n.hpower hdigit hmark, hpointed,
    hpowered, hend, hmoves.upTo_eq, NumberForm.kind]
  by_cases hf : n.fraction = [] <;> by_cases hp : n.power = [] <;> simp [hf, hp] <;> rfl

/-- The cursor behind the sign of a number, if there is one. -/
theorem moves_sign (c : Cursor) :
    ∃ sign, (sign = [] ∨ sign = ['-']) ∧ Moves c sign (if c.rest.head? = some '-' then c.drop 1 else c) := by
  by_cases hsign : c.rest.head? = some '-'
  · obtain ⟨rest, hrest⟩ := List.head?_eq_some_iff.1 hsign
    have hmoves := Moves.drop c 1
    rw [hrest] at hmoves
    rw [if_pos hsign]
    exact ⟨['-'], .inr rfl, hmoves⟩
  · rw [if_neg hsign]
    exact ⟨[], .inl rfl, .refl c⟩

theorem scanNumber_form {kind : TokenKind} (h : scanNumber c = .ok (kind, next)) :
    ∃ n : NumberForm, kind = n.kind ∧ Moves c n.text next ∧ Halts n.runsInto next.rest := by
  rw [scanNumber_eq] at h
  obtain ⟨whole, hwhole, h⟩ := exists_of_bind h
  obtain ⟨fraction, hfraction, h⟩ := exists_of_bind h
  obtain ⟨last, hpower, h⟩ := exists_of_bind h
  cases h
  obtain ⟨sign, hsign, hsigned⟩ := moves_sign c
  obtain ⟨ds, hds, hmoves, hhalts⟩ := scanDigits_form hwhole
  obtain ⟨f, hf, hmoves', hhalts', hpoint⟩ := scanFraction_form hfraction hhalts
  obtain ⟨p, hp, hmoves'', hhalts'', hmark⟩ := scanPower_form hpower hhalts'
  have htext := hsigned.trans (hmoves.trans (hmoves'.trans hmoves''))
  refine ⟨⟨sign, ds, f, p, hsign, hds, hf, hp⟩, ?_, htext, ?_⟩
  · have hplain : (f = [] ∧ p = []) ↔ ¬ (whole.rest.head? = some '.' ∨ fraction.rest.head? = some 'e' ∨
        fraction.rest.head? = some 'E') := by
      rw [isPowerMark_iff, hpoint, hmark, not_or, Classical.not_not]
    rw [htext.upTo_eq, NumberForm.kind]
    by_cases hnone : f = [] ∧ p = []
    · rw [if_neg (hplain.1 hnone), if_pos hnone]
      rfl
    · rw [if_pos (Decidable.not_not.1 (mt hplain.2 hnone)), if_neg hnone]
      rfl
  · intro x hx
    have hdigit := hhalts'' x hx
    by_cases hp' : p = []
    · -- Nothing stands between the fraction and what follows.
      have hrest : fraction.rest = next.rest := by rw [hmoves''.rest, hp', List.nil_append]
      have hletter : isPowerMark x = false := hmark.1 hp' x (by rwa [hrest])
      by_cases hf' : f = []
      · have hx' : whole.rest.head? = some x := by rwa [hmoves'.rest, hf', List.nil_append, hrest]
        have hdot : x ≠ '.' := by
          intro heq
          rw [heq] at hx'
          exact hpoint.1 hf' hx'
        simp [NumberForm.runsInto, hdigit, hletter, hdot]
      · simp [NumberForm.runsInto, hdigit, hletter, hf']
    · simp [NumberForm.runsInto, hdigit, hp']

end FieldScript.Schema
