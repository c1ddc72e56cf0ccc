import FieldScript.Proofs.Parse.Consumes
import FieldScript.Proofs.Syntax.Moved

/-!
# Two parsers side by side

What a parser does is decided by the tokens up to the first one that closes more than was opened. Two streams are *twins*
if they agree that far, up to a shift of all places (`Twin`); behind that token they may differ in any way. A parser
*matches* another one if, on twins, it succeeds where the other one does, with the same result at its own place, and both
stop at twins again (`Matches`).

The first of the two parsers is the one that is known to succeed. Only the second one's bounds have to be counted, which
is done like in `Draws`.
-/

namespace FieldScript

open Token (Kind Stream)

/-! ## Brackets -/

/-- What a token opens and another one closes. -/
inductive Bracket where
  | paren
  | bracket
  | brace
  /-- A substitution of a template. -/
  | substitution
deriving DecidableEq, Repr

/-- The brackets that are open, the innermost first. -/
abbrev Nest := List Bracket

/-- Closes the innermost bracket, if it is of a kind. -/
def Nest.close (b : Bracket) : Nest → Option Nest
  | [] => none
  | b' :: outer => if b = b' then some outer else none

namespace Token

/-- The brackets that are open behind a token, if it closes nothing but the innermost one. -/
def Kind.nest (kind : Kind) (o : Nest) : Option Nest :=
  match kind with
  | .punct .openParen => some (.paren :: o)
  | .punct .openBracket => some (.bracket :: o)
  | .punct .openBrace => some (.brace :: o)
  | .punct .closeParen => o.close .paren
  | .punct .closeBracket => o.close .bracket
  | .punct .closeBrace => o.close .brace
  | .templateHead _ => some (.substitution :: o)
  | .templateMiddle _ => (o.close .substitution).map (.substitution :: ·)
  | .templateTail _ => o.close .substitution
  | _ => some o

/-- A token at another place. -/
def moved (d : Nat) (t : Token) : Token := { t with span := t.span.moved d }

@[simp] theorem moved_kind (d : Nat) (t : Token) : (t.moved d).kind = t.kind := rfl

@[simp] theorem moved_text (d : Nat) (t : Token) : (t.moved d).text = t.text := rfl

@[simp] theorem moved_newlineBefore (d : Nat) (t : Token) : (t.moved d).newlineBefore = t.newlineBefore := rfl

@[simp] theorem moved_span (d : Nat) (t : Token) : (t.moved d).span = t.span.moved d := rfl

@[simp] theorem moved_isPunct (d : Nat) (t : Token) (mark : Punct) : (t.moved d).isPunct mark = t.isPunct mark := rfl

@[simp] theorem moved_isKeyword (d : Nat) (t : Token) (word : Keyword) : (t.moved d).isKeyword word = t.isKeyword word := rfl

@[simp] theorem moved_isEof (d : Nat) (t : Token) : (t.moved d).isEof = t.isEof := rfl

end Token

/-! ## Twins -/

/-- Streams that agree, up to a shift of all places, up to the first token that closes more than is open. -/
def Twin (d : Nat) : Nest → Stream → Stream → Prop
  | o, .cons t rest, s => ∃ rest', s = .cons (t.moved d) rest' ∧ ∀ o', t.kind.nest o = some o' → Twin d o' rest rest'
  | _, .done t, s => t.isEof = true ∧ s = .done (t.moved d)
  | _, .failed _, _ => True

namespace Twin

variable {d : Nat} {o : Nest} {s s₂ : Stream} {t : Token}

/-- Twins have the same next token. -/
theorem nth_zero (h : Twin d o s s₂) (ht : Parse.nth 0 s = .ok t) : Parse.nth 0 s₂ = .ok (t.moved d) := by
  cases s with
  | cons t' rest =>
      cases ht
      obtain ⟨rest₂, rfl, -⟩ := h
      rfl
  | done t' =>
      cases ht
      obtain ⟨-, rfl⟩ := h
      rfl
  | failed fault => cases ht

/-- They have the same token behind it, unless it closes too much. -/
theorem nth_one (h : Twin d o s s₂) (hnext : ∀ t, Parse.nth 0 s = .ok t → ∃ o', t.kind.nest o = some o')
    (ht : Parse.nth 1 s = .ok t) : Parse.nth 1 s₂ = .ok (t.moved d) := by
  cases s with
  | cons t' rest =>
      obtain ⟨rest₂, rfl, hrest⟩ := h
      obtain ⟨o', ho'⟩ := hnext t' rfl
      exact (hrest o' ho').nth_zero ht
  | done t' =>
      cases ht
      obtain ⟨-, rfl⟩ := h
      rfl
  | failed fault => cases ht

end Twin

namespace Parse

/-- States at twins, of which the second one has consumed the tokens of the first one further behind. -/
structure Abreast (d : Nat) (o : Nest) (st st₂ : State) : Prop where
  twin : Twin d o st.stream st₂.stream
  lastEnd : st₂.lastEnd = st.lastEnd + d

variable {α α₂ β β₂ : Type}

/-- From one state another one is reached over tokens that close nothing but what is open. -/
inductive Crosses : Nest → State → Nest → State → Prop where
  | refl (o : Nest) (st : State) : Crosses o st o st
  | step {o r o' : Nest} {t : Token} {rest : Stream} {lastEnd : Nat} {st' : State} (nest : t.kind.nest o = some r)
      (more : Crosses r ⟨rest, t.span.stop⟩ o' st') : Crosses o ⟨.cons t rest, lastEnd⟩ o' st'

theorem Crosses.trans {o r o' : Nest} {st mid st' : State} (h : Crosses o st r mid) (h' : Crosses r mid o' st') :
    Crosses o st o' st' := by
  induction h with
  | refl => exact h'
  | step nest _ ih => exact .step nest (ih h')

/-- Nothing is known of what comes next. -/
abbrev AnyStream : Stream → Prop := fun _ => True

/-- The next token is known. -/
abbrev Head (t : Token) : Stream → Prop := fun s => nth 0 s = .ok t

/-- Wherever the first parser succeeds, so does the second one on fewer than `n` tokens: with the same result as told, and
at twins of what the first one leaves. Both consume as many tokens, and at least `k`. -/
def Matches (d n k : Nat) (N : Stream → Prop) (o o' : Nest) (mv : α → α₂) (p : Parser α) (p₂ : Parser α₂) : Prop :=
  ∀ st st₂, Abreast d o st st₂ → st₂.stream.length < n → N st.stream → ∀ a st', p st = .ok (a, st') →
    ∃ st₂', p₂ st₂ = .ok (mv a, st₂') ∧ Abreast d o' st' st₂' ∧ Crosses o st o' st' ∧
      st'.stream.length + k ≤ st.stream.length ∧
      st₂'.stream.length + st.stream.length = st'.stream.length + st₂.stream.length

variable {d n m i j k : Nat} {N N' : Stream → Prop} {o r o' : Nest} {mv : α → α₂} {mv' : β → β₂} {p : Parser α}
  {p₂ : Parser α₂} {t : Token}

namespace Matches

/-- There is no stream below no token. -/
theorem zero : Matches d 0 k N o o' mv p p₂ := fun _ _ _ hlt => absurd hlt (Nat.not_lt_zero _)

theorem pure {a : α} {a₂ : α₂} (h : a₂ = mv a) : Matches d n 0 N o o mv (Pure.pure a) (Pure.pure a₂) := by
  rintro st st₂ habreast - - _ _ ⟨⟩
  exact ⟨st₂, by rw [h]; rfl, habreast, .refl o _, Nat.le_refl _, Nat.add_comm _ _⟩

theorem fail {cause : SyntaxFault.Cause} {span : Span} : Matches d n k N o o' mv (Parse.fail cause span) p₂ := by
  rintro st st₂ - - - _ _ ⟨⟩

theorem exhausted : Matches d n k N o o' mv Parse.exhausted p₂ := by
  rintro st st₂ - - - _ _ ⟨⟩

/-- Below fewer tokens. -/
theorem le (h : Matches d n k N o o' mv p p₂) (hle : m ≤ n) : Matches d m k N o o' mv p p₂ :=
  fun st st₂ habreast hlt => h st st₂ habreast (Nat.lt_of_lt_of_le hlt hle)

/-- Fewer of the tokens consumed are counted. -/
theorem less (h : Matches d n k N o o' mv p p₂) (hle : j ≤ k) : Matches d n j N o o' mv p p₂ := by
  intro st st₂ habreast hlt hnext a st' hrun
  obtain ⟨st₂', hrun₂, habreast', hcrosses, hcount, hcount₂⟩ := h st st₂ habreast hlt hnext a st' hrun
  exact ⟨st₂', hrun₂, habreast', hcrosses, by omega, hcount₂⟩

/-- The tokens consumed are not counted. -/
theorem lax (h : Matches d n k N o o' mv p p₂) : Matches d n 0 N o o' mv p p₂ := h.less (Nat.zero_le k)

/-- More is known of what comes next. -/
theorem next (h : Matches d n k N o o' mv p p₂) (himp : ∀ s, N' s → N s) : Matches d n k N' o o' mv p p₂ :=
  fun st st₂ habreast hlt hnext => h st st₂ habreast hlt (himp _ hnext)

theorem any (h : Matches d n k AnyStream o o' mv p p₂) : Matches d n k N o o' mv p p₂ := h.next fun _ _ => trivial

theorem ite {c c₂ : Prop} [Decidable c] [Decidable c₂] {q : Parser α} {q₂ : Parser α₂} (hc : c₂ ↔ c)
    (h : c → Matches d n k N o o' mv p p₂) (h' : ¬ c → Matches d n k N o o' mv q q₂) :
    Matches d n k N o o' mv (if c then p else q) (if c₂ then p₂ else q₂) := by
  by_cases hcond : c
  · rw [if_pos hcond, if_pos (hc.2 hcond)]
    exact h hcond
  · rw [if_neg hcond, if_neg fun h₂ => hcond (hc.1 h₂)]
    exact h' hcond

/-! ## One parser behind another -/

variable {x : Parser α} {x₂ : Parser α₂} {f : α → Parser β} {f₂ : α₂ → Parser β₂}

/-- What comes behind a parser may use that its result is one. -/
theorem seq_of (hx : Matches d n i N o r mv x x₂)
    (hf : ∀ a, (∃ st st', x st = .ok (a, st')) → Matches d m j AnyStream r o' mv' (f a) (f₂ (mv a))) (hm : n ≤ m + i)
    (hk : k ≤ i + j) : Matches d n k N o o' mv' (x >>= f) (x₂ >>= f₂) := by
  intro st st₂ habreast hlt hnext b st' hrun
  obtain ⟨a, stmid, hx', hf'⟩ := exists_of_bind hrun
  obtain ⟨stmid₂, hx₂, hmid, hcrosses, hcount, hcount₂⟩ := hx st st₂ habreast hlt hnext a stmid hx'
  obtain ⟨st₂', hf₂, habreast', hcrosses', hcount', hcount₂'⟩ :=
    hf a ⟨st, stmid, hx'⟩ stmid stmid₂ hmid (by omega) trivial b st' hf'
  refine ⟨st₂', ?_, habreast', hcrosses.trans hcrosses', by omega, by omega⟩
  show (x₂ st₂ >>= fun r => f₂ r.1 r.2) = _
  rw [hx₂]
  exact hf₂

theorem seq (hx : Matches d n i N o r mv x x₂)
    (hf : ∀ a, Matches d m j AnyStream r o' mv' (f a) (f₂ (mv a))) (hm : n ≤ m + i) (hk : k ≤ i + j) :
    Matches d n k N o o' mv' (x >>= f) (x₂ >>= f₂) :=
  hx.seq_of (fun a _ => hf a) hm hk

/-- The second parser is as good as both. -/
theorem bind (hx : Matches d n 0 N o r mv x x₂) (hf : ∀ a, Matches d n k AnyStream r o' mv' (f a) (f₂ (mv a))) :
    Matches d n k N o o' mv' (x >>= f) (x₂ >>= f₂) :=
  hx.seq hf (Nat.le_refl _) (by omega)

/-- The first parser consumes a token, so that the second one has fewer left. -/
theorem enter (hx : Matches d (n + 1) 1 N o r mv x x₂)
    (hf : ∀ a, Matches d n 0 AnyStream r o' mv' (f a) (f₂ (mv a))) :
    Matches d (n + 1) 1 N o o' mv' (x >>= f) (x₂ >>= f₂) :=
  hx.seq hf (Nat.le_refl _) (Nat.le_refl _)

/-- The first parser consumes a token. -/
theorem first (hx : Matches d n 1 N o r mv x x₂) (hf : ∀ a, Matches d n 0 AnyStream r o' mv' (f a) (f₂ (mv a))) :
    Matches d n 1 N o o' mv' (x >>= f) (x₂ >>= f₂) :=
  hx.seq hf (Nat.le_succ _) (Nat.le_refl _)

theorem map {g : α → β} {g₂ : α₂ → β₂} (h : Matches d n k N o o' mv p p₂) (hg : ∀ a, g₂ (mv a) = mv' (g a)) :
    Matches d n k N o o' mv' (g <$> p) (g₂ <$> p₂) := by
  rw [map_eq_pure_bind, map_eq_pure_bind]
  exact h.seq (fun a => .pure (hg a)) (Nat.le_add_right n k) (Nat.le_refl _)

/-- What looks at the state only. -/
theorem look (hx : ∀ st st₂ a st', Abreast d o st st₂ → N st.stream → x st = .ok (a, st') →
      st' = st ∧ ∃ a₂, x₂ st₂ = .ok (a₂, st₂) ∧ Matches d n k N o o' mv' (f a) (f₂ a₂)) :
    Matches d n k N o o' mv' (x >>= f) (x₂ >>= f₂) := by
  intro st st₂ habreast hlt hnext b st' hrun
  obtain ⟨a, stmid, hx', hf'⟩ := exists_of_bind hrun
  obtain ⟨rfl, a₂, hx₂, hmatches⟩ := hx st st₂ a stmid habreast hnext hx'
  obtain ⟨st₂', hf₂, hrest⟩ := hmatches stmid st₂ habreast hlt hnext b st' hf'
  refine ⟨st₂', ?_, hrest⟩
  show (x₂ st₂ >>= fun r => f₂ r.1 r.2) = _
  rw [hx₂]
  exact hf₂

/-! ## Primitive parsers -/

section Primitive

variable {f : Token → Parser α} {f₂ : Token → Parser α₂} {g : Bool → Parser α} {g₂ : Bool → Parser α₂}

theorem peekNth_eq {i : Nat} {st : State} (ht : nth i st.stream = .ok t) : Parse.peekNth i st = .ok (t, st) := by
  show (nth i st.stream >>= fun t => Except.ok (t, st)) = _
  rw [ht]
  rfl

theorem nth_of_peekNth {i : Nat} {st st' : State} (h : Parse.peekNth i st = .ok (t, st')) :
    nth i st.stream = .ok t ∧ st' = st := by
  change (nth i st.stream >>= fun t => Except.ok (t, st)) = .ok (t, st') at h
  cases hi : nth i st.stream with
  | error fault =>
      rw [hi] at h
      cases h
  | ok t =>
      rw [hi] at h
      cases h
      exact ⟨rfl, rfl⟩

/-- From a look at the next token on it is known. -/
theorem peek_and (h : ∀ t, Matches d n k (fun s => N s ∧ Head t s) o o' mv (f t) (f₂ (t.moved d))) :
    Matches d n k N o o' mv (Parse.peek >>= f) (Parse.peek >>= f₂) := by
  intro st st₂ habreast hlt hnext a st' hrun
  obtain ⟨t, stmid, hpeek, hrun'⟩ := exists_of_bind hrun
  obtain ⟨ht, rfl⟩ := nth_of_peekNth (i := 0) hpeek
  obtain ⟨st₂', hrun₂, hrest⟩ := h t stmid st₂ habreast hlt ⟨hnext, ht⟩ a st' hrun'
  refine ⟨st₂', ?_, hrest⟩
  show (Parse.peekNth 0 st₂ >>= fun r => f₂ r.1 r.2) = _
  rw [peekNth_eq (habreast.twin.nth_zero ht)]
  exact hrun₂

theorem peek (h : ∀ t, Matches d n k (Head t) o o' mv (f t) (f₂ (t.moved d))) :
    Matches d n k N o o' mv (Parse.peek >>= f) (Parse.peek >>= f₂) :=
  peek_and fun t => (h t).next fun _ hs => hs.2

/-- A look at a token that is known. -/
theorem peek_known (hN : ∀ s, N s → Head t s) (h : Matches d n k N o o' mv (f t) (f₂ (t.moved d))) :
    Matches d n k N o o' mv (Parse.peek >>= f) (Parse.peek >>= f₂) := by
  refine peek_and fun t' st st₂ habreast hlt hnext => ?_
  obtain rfl : t' = t := Except.ok.inj (hnext.2.symm.trans (hN _ hnext.1))
  exact h st st₂ habreast hlt hnext.1

/-- A look behind a token that is known, which must not close too much. -/
theorem peekNth_one (hN : ∀ s, N s → Head t s) (hnest : ∃ r, t.kind.nest o = some r)
    (h : ∀ t', Matches d n k (fun s => N s ∧ nth 1 s = .ok t') o o' mv (f t') (f₂ (t'.moved d))) :
    Matches d n k N o o' mv (Parse.peekNth 1 >>= f) (Parse.peekNth 1 >>= f₂) := by
  intro st st₂ habreast hlt hnext a st' hrun
  obtain ⟨t', stmid, hpeek, hrun'⟩ := exists_of_bind hrun
  obtain ⟨ht', rfl⟩ := nth_of_peekNth hpeek
  obtain ⟨st₂', hrun₂, hrest⟩ := h t' stmid st₂ habreast hlt ⟨hnext, ht'⟩ a st' hrun'
  refine ⟨st₂', ?_, hrest⟩
  show (Parse.peekNth 1 st₂ >>= fun r => f₂ r.1 r.2) = _
  have hclear : ∀ t'', nth 0 stmid.stream = .ok t'' → ∃ r, t''.kind.nest o = some r := by
    intro t'' ht''
    obtain rfl := Except.ok.inj (ht''.symm.trans (hN _ hnext))
    exact hnest
  rw [peekNth_eq (habreast.twin.nth_one hclear ht')]
  exact hrun₂

/-- Consumes a token that is not the end. What was known of the tokens behind it still is. -/
theorem advance_seq (hend : ∀ s t, N s → Head t s → t.isEof = false)
    (hnest : ∀ s t, N s → Head t s → t.kind.nest o = some r)
    (h : ∀ t, Matches d m j (fun s => N (.cons t s)) r o' mv (f t) (f₂ (t.moved d))) (hm : n ≤ m + 1) (hk : k ≤ j + 1) :
    Matches d n k N o o' mv (Parse.advance >>= f) (Parse.advance >>= f₂) := by
  intro st st₂ habreast hlt hnext a st' hrun
  obtain ⟨stream, lastEnd⟩ := st
  obtain ⟨stream₂, lastEnd₂⟩ := st₂
  obtain ⟨htwin, -⟩ := habreast
  cases stream with
  | cons t rest =>
      obtain ⟨rest₂, rfl, hrest⟩ := htwin
      have hmid := hnest _ t hnext rfl
      change rest₂.length + 1 < n at hlt
      obtain ⟨st₂', hrun₂, habreast', hcrosses, hcount, hcount₂⟩ := h t ⟨rest, t.span.stop⟩ ⟨rest₂, (t.moved d).span.stop⟩
        ⟨hrest r hmid, rfl⟩ (show rest₂.length < m by omega) hnext a st' hrun
      refine ⟨st₂', hrun₂, habreast', .step hmid hcrosses, ?_, ?_⟩
      · change st'.stream.length + j ≤ rest.length at hcount
        show st'.stream.length + k ≤ rest.length + 1
        omega
      · change st₂'.stream.length + rest.length = st'.stream.length + rest₂.length at hcount₂
        show st₂'.stream.length + (rest.length + 1) = st'.stream.length + (rest₂.length + 1)
        omega
  | done t => exact absurd htwin.1 (by rw [hend _ t hnext rfl]; exact Bool.false_ne_true)
  | failed fault => cases hrun

/-- Consumes a token that is known. -/
theorem skip_known (hend : t.isEof = false) (hnest : t.kind.nest o = some r) (hN : ∀ s, N s → Head t s)
    (h : Matches d m j (fun s => N (.cons t s)) r o' mv (f t) (f₂ (t.moved d))) (hm : n ≤ m + 1) (hk : k ≤ j + 1) :
    Matches d n k N o o' mv (Parse.advance >>= f) (Parse.advance >>= f₂) := by
  have hsame : ∀ s t', N s → Head t' s → t' = t := fun s t' hs ht' => Except.ok.inj (ht'.symm.trans (hN s hs))
  refine advance_seq (r := r) (fun s t' hs ht' => hsame s t' hs ht' ▸ hend)
    (fun s t' hs ht' => hsame s t' hs ht' ▸ hnest) (fun t' => ?_) hm hk
  intro st st₂ habreast hlt hnext
  obtain rfl := hsame _ t' hnext rfl
  exact h st st₂ habreast hlt hnext

theorem skip_seq (hend : t.isEof = false) (hnest : t.kind.nest o = some r)
    (h : Matches d m j AnyStream r o' mv (f t) (f₂ (t.moved d))) (hm : n ≤ m + 1) (hk : k ≤ j + 1) :
    Matches d n k (Head t) o o' mv (Parse.advance >>= f) (Parse.advance >>= f₂) :=
  skip_known hend hnest (fun _ => id) h.any hm hk

theorem skip (hend : t.isEof = false) (hnest : t.kind.nest o = some r)
    (h : Matches d n 0 AnyStream r o' mv (f t) (f₂ (t.moved d))) :
    Matches d (n + 1) 1 (Head t) o o' mv (Parse.advance >>= f) (Parse.advance >>= f₂) :=
  skip_seq hend hnest h (Nat.le_refl _) (Nat.le_refl _)

/-- Consumes a token where fewer would not matter. -/
theorem skip_first (hend : t.isEof = false) (hnest : t.kind.nest o = some r)
    (h : Matches d n 0 AnyStream r o' mv (f t) (f₂ (t.moved d))) :
    Matches d n 1 (Head t) o o' mv (Parse.advance >>= f) (Parse.advance >>= f₂) :=
  skip_seq hend hnest h (Nat.le_succ _) (Nat.le_refl _)

/-- What never succeeds behind a token. -/
theorem advance_fails (h : ∀ st a st', f t st ≠ .ok (a, st')) : Matches d n k (Head t) o o' mv (Parse.advance >>= f) p₂ := by
  intro st st₂ _ _ hnext a st' hrun
  exfalso
  obtain ⟨t', stmid, hadvance, hrun'⟩ := exists_of_bind hrun
  obtain ⟨stream, lastEnd⟩ := st
  cases stream with
  | cons t'' rest =>
      cases hadvance
      cases hnext
      exact h _ a st' hrun'
  | done t'' =>
      cases hadvance
      cases hnext
      exact h _ a st' hrun'
  | failed fault => cases hadvance

/-- A parser that consumes the next token succeeds only where there is one. -/
theorem advance_head (h : ∀ t, Matches d n k (Head t) o o' mv (Parse.advance >>= f) (Parse.advance >>= f₂)) :
    Matches d n k N o o' mv (Parse.advance >>= f) (Parse.advance >>= f₂) := by
  intro st st₂ habreast hlt hnext a st' hrun
  cases hfirst : nth 0 st.stream with
  | ok t => exact h t st st₂ habreast hlt hfirst a st' hrun
  | error fault =>
      obtain ⟨stream, lastEnd⟩ := st
      cases stream with
      | cons t rest => cases hfirst
      | done t => cases hfirst
      | failed fault => cases hrun

/-- The next token, if there is one, is a mark or is not. -/
abbrev HeadIs (mark : Punct) (b : Bool) : Stream → Prop := fun s => ∀ t, Head t s → t.isPunct mark = b

theorem atPunct {mark : Punct} (h : ∀ b, Matches d n k (fun s => N s ∧ HeadIs mark b s) o o' mv (g b) (g₂ b)) :
    Matches d n k N o o' mv (Parse.atPunct mark >>= g) (Parse.atPunct mark >>= g₂) := by
  unfold Parse.atPunct
  rw [bind_assoc, bind_assoc]
  refine peek_and fun t => ?_
  rw [pure_bind, pure_bind]
  refine (h (t.isPunct mark)).next fun s hs => ⟨hs.1, fun t' ht' => ?_⟩
  rw [Except.ok.inj (ht'.symm.trans hs.2)]

theorem kind_of_isPunct {mark : Punct} (h : t.isPunct mark = true) : t.kind = .punct mark := by
  unfold Token.isPunct at h
  split at h
  · rename_i m hkind
    rw [hkind, eq_of_beq h]
  · cases h

theorem kind_of_isKeyword {word : Keyword} (h : t.isKeyword word = true) : t.kind = .keyword word := by
  unfold Token.isKeyword at h
  split at h
  · rename_i w hkind
    rw [hkind, eq_of_beq h]
  · cases h

theorem isEof_of_kind_eq {kind : Kind} (h : t.kind = kind) (hkind : kind ≠ .eof) : t.isEof = false := by
  unfold Token.isEof
  split
  · rename_i heof
    exact absurd (h.symm.trans heof) hkind
  · rfl

/-- Consumes a mark that is known to come next. -/
theorem advance_mark {mark : Punct} (hN : ∀ s, N s → HeadIs mark true s) (hnest : (Kind.punct mark).nest o = some r)
    (h : ∀ t, Matches d m j AnyStream r o' mv (f t) (f₂ (t.moved d))) (hm : n ≤ m + 1) (hk : k ≤ j + 1) :
    Matches d n k N o o' mv (Parse.advance >>= f) (Parse.advance >>= f₂) := by
  have hkind : ∀ s t, N s → Head t s → t.kind = .punct mark := fun s t hs ht => kind_of_isPunct (hN s hs t ht)
  exact advance_seq (fun s t hs ht => isEof_of_kind_eq (hkind s t hs ht) nofun)
    (fun s t hs ht => by rw [hkind s t hs ht, hnest]) (fun t => (h t).any) hm hk

theorem eatPunct_seq {mark : Punct} (hnest : (Kind.punct mark).nest o = some r)
    (htrue : Matches d m j AnyStream r o' mv (g true) (g₂ true))
    (hfalse : Matches d n k (fun s => N s ∧ HeadIs mark false s) o o' mv (g false) (g₂ false)) (hm : n ≤ m + 1)
    (hk : k ≤ j + 1) : Matches d n k N o o' mv (Parse.eatPunct mark >>= g) (Parse.eatPunct mark >>= g₂) := by
  unfold Parse.eatPunct
  rw [bind_assoc, bind_assoc]
  refine atPunct fun b => ?_
  cases b with
  | false =>
      rw [if_neg Bool.false_ne_true, pure_bind, pure_bind]
      exact hfalse
  | true =>
      rw [if_pos rfl, bind_assoc, bind_assoc]
      refine advance_mark (fun s hs => hs.2) hnest (fun t => ?_) hm hk
      rw [pure_bind, pure_bind]
      exact htrue

theorem eatPunct {mark : Punct} (hnest : (Kind.punct mark).nest o = some r)
    (htrue : Matches d n k AnyStream r o' mv (g true) (g₂ true))
    (hfalse : Matches d n k (fun s => N s ∧ HeadIs mark false s) o o' mv (g false) (g₂ false)) :
    Matches d n k N o o' mv (Parse.eatPunct mark >>= g) (Parse.eatPunct mark >>= g₂) :=
  eatPunct_seq hnest htrue hfalse (Nat.le_succ _) (Nat.le_succ _)

/-- Consumes nothing where another token comes next. -/
theorem eatPunct_none {mark : Punct} (hN : ∀ s, N s → HeadIs mark false s)
    (h : Matches d n k N o o' mv (g false) (g₂ false)) :
    Matches d n k N o o' mv (Parse.eatPunct mark >>= g) (Parse.eatPunct mark >>= g₂) := by
  unfold Parse.eatPunct Parse.atPunct
  simp only [bind_assoc, pure_bind]
  refine peek_and fun t st st₂ habreast hlt hnext => ?_
  rw [Token.moved_isPunct, hN _ hnext.1 t hnext.2, if_neg Bool.false_ne_true, pure_bind, pure_bind]
  exact h st st₂ habreast hlt hnext.1

theorem eatKeyword {word : Keyword} (htrue : Matches d n k AnyStream o o' mv (g true) (g₂ true))
    (hfalse : Matches d n k N o o' mv (g false) (g₂ false)) :
    Matches d n k N o o' mv (Parse.eatKeyword word >>= g) (Parse.eatKeyword word >>= g₂) := by
  unfold Parse.eatKeyword Parse.atKeyword
  simp only [bind_assoc, pure_bind]
  refine peek_and fun t => ?_
  rw [Token.moved_isKeyword]
  cases hword : t.isKeyword word with
  | false =>
      rw [if_neg Bool.false_ne_true, pure_bind, pure_bind]
      exact hfalse.next fun _ hs => hs.1
  | true =>
      rw [if_pos rfl, bind_assoc, bind_assoc]
      have hkind := kind_of_isKeyword hword
      refine (skip_seq (r := o) (t := t) (isEof_of_kind_eq hkind nofun) (by rw [hkind]; rfl) ?_ (Nat.le_succ _)
        (Nat.le_succ _)).next fun _ hs => hs.2
      rw [pure_bind, pure_bind]
      exact htrue

theorem unexpected : Matches d n k N o o' mv Parse.unexpected p₂ := by
  intro st st₂ _ _ _ a st' hrun
  exfalso
  obtain ⟨t, stmid, -, hrun⟩ := exists_of_bind hrun
  cases hkind : t.kind <;> rw [hkind] at hrun <;> cases hrun

theorem expectPunct_seq {mark : Punct} (hnest : (Kind.punct mark).nest o = some r)
    (h : ∀ t, Matches d m j AnyStream r o' mv (f t) (f₂ (t.moved d))) (hm : n ≤ m + 1) (hk : k ≤ j + 1) :
    Matches d n k N o o' mv (Parse.expectPunct mark >>= f) (Parse.expectPunct mark >>= f₂) := by
  unfold Parse.expectPunct
  rw [bind_assoc, bind_assoc]
  refine atPunct fun b => ?_
  cases b with
  | false =>
      rw [if_neg Bool.false_ne_true, bind_assoc]
      intro st st₂ _ _ _ a st' hrun
      obtain ⟨t, stmid, -, hrun⟩ := exists_of_bind hrun
      cases hrun
  | true =>
      rw [if_pos rfl]
      exact advance_mark (fun s hs => hs.2) hnest h hm hk

/-- A mark that has to come next. -/
theorem expectPunct {mark : Punct} (hnest : (Kind.punct mark).nest o = some r)
    (h : ∀ t, Matches d n k AnyStream r o' mv (f t) (f₂ (t.moved d))) :
    Matches d n k N o o' mv (Parse.expectPunct mark >>= f) (Parse.expectPunct mark >>= f₂) :=
  expectPunct_seq hnest h (Nat.le_succ _) (Nat.le_succ _)

theorem expectPunct_enter {mark : Punct} (hnest : (Kind.punct mark).nest o = some r)
    (h : ∀ t, Matches d n 0 AnyStream r o' mv (f t) (f₂ (t.moved d))) :
    Matches d (n + 1) 1 N o o' mv (Parse.expectPunct mark >>= f) (Parse.expectPunct mark >>= f₂) :=
  expectPunct_seq hnest h (Nat.le_refl _) (Nat.le_refl _)

/-- The bound that the second parser is given exceeds the number of tokens left. -/
theorem bound {f : Nat → Parser α} {f₂ : Nat → Parser α₂} (h : ∀ l m, m ≤ n → Matches d m k N o o' mv (f l) (f₂ m)) :
    Matches d n k N o o' mv (Parse.bound >>= f) (Parse.bound >>= f₂) := by
  intro st st₂ habreast hlt hnext a st' hrun
  exact h (st.stream.length + 1) (st₂.stream.length + 1) hlt st st₂ habreast (Nat.lt_succ_self _) hnext a st' hrun

theorem spanFrom {f : Span → Parser α} {f₂ : Span → Parser α₂} {start start₂ : Span} (hstart : start₂ = start.moved d)
    (h : ∀ span, Matches d n k N o o' mv (f span) (f₂ (span.moved d))) :
    Matches d n k N o o' mv (Parse.spanFrom start >>= f) (Parse.spanFrom start₂ >>= f₂) := by
  refine look fun st st₂ span st' habreast _ hrun => ?_
  cases hrun
  refine ⟨rfl, (start.merge (.point st.lastEnd)).moved d, ?_, h _⟩
  show Except.ok (start₂.merge (.point st₂.lastEnd), st₂) = _
  rw [hstart, habreast.lastEnd, Span.moved_merge, Span.moved_point]

theorem lift {mv' : β → β₂} {x : Target β} {x₂ : Target β₂} {f : β → Parser α} {f₂ : β₂ → Parser α₂}
    (hx : ∀ b, x = .ok b → x₂ = .ok (mv' b)) (h : ∀ b, x = .ok b → Matches d n k N o o' mv (f b) (f₂ (mv' b))) :
    Matches d n k N o o' mv (liftM x >>= f) (liftM x₂ >>= f₂) := by
  cases x with
  | error fault => exact fun _ _ _ _ _ _ _ hrun => by cases hrun
  | ok b =>
      rw [hx b rfl]
      exact h b rfl

end Primitive

end Matches

/-! ## Names -/

theorem bindingName_matches : Matches d n 1 N o o (Ident.moved d) bindingName bindingName := by
  refine .peek fun t => ?_
  rw [Token.moved_kind]
  split
  · rename_i name hkind
    exact .skip_first (Matches.isEof_of_kind_eq hkind nofun) (by rw [hkind]; rfl) (.pure rfl)
  · rename_i hkind
    exact .skip_first (Matches.isEof_of_kind_eq hkind nofun) (by rw [hkind]; rfl) (.pure rfl)
  · exact .unexpected

theorem propertyName_matches : Matches d n 1 N o o (Ident.moved d) propertyName propertyName := by
  refine .peek fun t => ?_
  rw [Token.moved_kind]
  split
  · rename_i word hkind
    exact .skip_first (Matches.isEof_of_kind_eq hkind nofun) (by rw [hkind]; rfl) (.pure rfl)
  · rename_i word hkind
    exact .skip_first (Matches.isEof_of_kind_eq hkind nofun) (by rw [hkind]; rfl) (.pure rfl)
  · rename_i word hkind
    exact .skip_first (Matches.isEof_of_kind_eq hkind nofun) (by rw [hkind]; rfl) (.pure rfl)
  · exact .unexpected

theorem semicolon_matches : Matches d n 0 N o o id semicolon semicolon := by
  refine .eatPunct rfl (.pure rfl) (.peek fun t => ?_)
  exact .ite Iff.rfl (fun _ => .pure rfl) fun _ => .unexpected

/-! ## Things with commas between them -/

section Lists

variable {item : Parser α} {item₂ : Parser α₂} {close : Punct} {fuel fuel₂ : Nat}

theorem separated_matches (hitem : Matches d n 1 AnyStream o o mv item item₂) (hn : n ≤ fuel₂) :
    Matches d n 0 N o o (List.map mv) (separated close item fuel) (separated close item₂ fuel₂) := by
  induction fuel₂ generalizing fuel N n with
  | zero =>
      obtain rfl : n = 0 := Nat.le_zero.1 hn
      exact .zero
  | succ fuel₂ ih =>
      cases fuel with
      | zero => exact .exhausted
      | succ fuel =>
          refine .atPunct fun b => ?_
          cases b with
          | true => exact .pure rfl
          | false =>
              cases n with
              | zero => exact .zero
              | succ n =>
                  refine Matches.lax (.enter hitem.any fun x => .eatPunct rfl ?_ (.pure rfl))
                  exact .bind (ih (hitem.le (Nat.le_succ n)) (by omega)) fun xs => .pure rfl

theorem separatedWithHoles_matches {hole : α} {hole₂ : α₂} (hhole : hole₂ = mv hole)
    (hitem : Matches d n 1 AnyStream o o mv item item₂) (hn : n ≤ fuel₂) :
    Matches d n 0 N o o (List.map mv) (separatedWithHoles close hole item fuel)
      (separatedWithHoles close hole₂ item₂ fuel₂) := by
  induction fuel₂ generalizing fuel N n with
  | zero =>
      obtain rfl : n = 0 := Nat.le_zero.1 hn
      exact .zero
  | succ fuel₂ ih =>
      cases fuel with
      | zero => exact .exhausted
      | succ fuel =>
          refine .atPunct fun b => ?_
          cases b with
          | true => exact .pure rfl
          | false =>
              cases n with
              | zero => exact .zero
              | succ n =>
                  have hmore : ∀ x x₂, x₂ = mv x → Matches d n 0 AnyStream o o (List.map mv)
                      (separatedWithHoles close hole item fuel >>= fun xs => pure (x :: xs))
                      (separatedWithHoles close hole₂ item₂ fuel₂ >>= fun xs => pure (x₂ :: xs)) := by
                    intro x x₂ hx
                    exact .bind (ih (hitem.le (Nat.le_succ n)) (by omega)) fun xs => .pure (by rw [hx]; rfl)
                  refine .eatPunct_seq rfl (hmore hole hole₂ hhole) ?_ (Nat.le_refl _) (Nat.zero_le _)
                  exact Matches.lax (.enter hitem.any fun x => .eatPunct rfl (hmore x _ rfl) (.pure rfl))

end Lists

end Parse
end FieldScript
