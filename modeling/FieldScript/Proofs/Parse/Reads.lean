import Mathlib.Data.List.Forall2
import FieldScript.Proofs.Render.Layout
import FieldScript.Proofs.Syntax.Legible

/-!
# What a parser makes of known tokens

A parser *reads* lexemes if it consumes exactly the tokens that spell them and succeeds, whatever follows them, as long
as what follows starts with a token at which the parser stops. There is a rule for each way of putting parsers
together, so that a proof about a parser goes along its text and along the lexemes at once.

* `Reads.bind`: what the second parser reads has to start with a token at which the first one stops.
* `Reads.peek`, `Reads.advance` and so on: the primitive parsers, in terms of the next lexeme.
* `separated_reads`, `separatedWithHoles_reads`: things with commas between them.
-/

namespace FieldScript

namespace Token.Kind

def isMark (k : Kind) (mark : Punct) : Bool :=
  match k with
  | .punct m => m == mark
  | _ => false

def isWord (k : Kind) (word : Keyword) : Bool :=
  match k with
  | .keyword w => w == word
  | _ => false

@[simp] theorem isMark_punct (m mark : Punct) : (Kind.punct m).isMark mark = (m == mark) := rfl

theorem eq_of_isMark {k : Kind} {mark : Punct} (h : k.isMark mark = true) : k = .punct mark := by
  unfold isMark at h
  split at h
  · rw [beq_iff_eq.1 h]
  · cases h

end Token.Kind

theorem Token.isPunct_eq (t : Token) (mark : Punct) : t.isPunct mark = t.kind.isMark mark := rfl

theorem Token.isKeyword_eq (t : Token) (word : Keyword) : t.isKeyword word = t.kind.isWord word := rfl

namespace Parse

open Token (Kind Lexeme Spells Stream Piece)

variable {α β : Type}

/-! ## Reading -/

/-- A stream whose next token is of a kind as told. -/
def Stops (P : Kind → Bool) (rest : Stream) : Prop := ∃ t, nth 0 rest = .ok t ∧ P t.kind = true

/-- A parser that consumes the tokens of lexemes in front of a stop, with a result as told. -/
def Reads (p : Parser α) (ls : List Lexeme) (P : Kind → Bool) (Q : α → Prop) : Prop :=
  ∀ s rest stop, Spells s ls rest → Stops P rest → ∃ a stop', p ⟨s, stop⟩ = .ok (a, ⟨rest, stop'⟩) ∧ Q a

/-- The next token is of a kind as told: the first lexeme, or the stop behind the lexemes. -/
def Begins (N P : Kind → Bool) : List Lexeme → Prop
  | [] => ∀ k, P k = true → N k = true
  | l :: _ => N l.kind = true

variable {N N' P P' : Kind → Bool} {ls ls' : List Lexeme} {l : Lexeme} {Q R : α → Prop}

theorem Begins.stops {s rest : Stream} (h : Begins N P ls) (hs : Spells s ls rest) (hrest : Stops P rest) :
    Stops N s := by
  cases hs with
  | nil =>
      obtain ⟨t, ht, hkind⟩ := hrest
      exact ⟨t, ht, h _ hkind⟩
  | @cons t _ _ _ _ kind _ _ _ => exact ⟨t, rfl, by rw [kind]; exact h⟩

theorem begins_append (h : Begins N P ls) (hne : ls ≠ []) : Begins N P' (ls ++ ls') := by
  cases ls with
  | nil => exact absurd rfl hne
  | cons l ls => exact h

theorem bind_run {x : Parser α} {f : α → Parser β} {s s' : State} {a : α} (h : x s = .ok (a, s')) :
    (x >>= f) s = f a s' := by
  show (x s >>= fun r => f r.1 r.2) = f a s'
  rw [h]
  rfl

namespace Reads

theorem pure {a : α} (h : Q a) : Reads (Pure.pure a) [] P Q := by
  intro s rest stop hs _
  cases hs
  exact ⟨a, stop, rfl, h⟩

theorem mono {p : Parser α} (h : Reads p ls P Q) (himp : ∀ a, Q a → R a) : Reads p ls P R := by
  intro s rest stop hs hrest
  obtain ⟨a, stop', hrun, ha⟩ := h s rest stop hs hrest
  exact ⟨a, stop', hrun, himp a ha⟩

/-- Fewer tokens to stop at. -/
theorem stop {p : Parser α} (h : Reads p ls P Q) (himp : ∀ k, P' k = true → P k = true) : Reads p ls P' Q := by
  intro s rest stop hs ⟨t, ht, hkind⟩
  exact h s rest stop hs ⟨t, ht, himp _ hkind⟩

/-- One parser behind another. -/
theorem bind {x : Parser α} {f : α → Parser β} {Q : α → Prop} {R : β → Prop} (hx : Reads x ls N Q)
    (hbegins : Begins N P ls') (hf : ∀ a, Q a → Reads (f a) ls' P R) : Reads (x >>= f) (ls ++ ls') P R := by
  intro s rest stop hs hrest
  obtain ⟨mid, hfirst, hmore⟩ := hs.split
  obtain ⟨a, stop', hrun, ha⟩ := hx s mid stop hfirst (hbegins.stops hmore hrest)
  obtain ⟨b, stop'', hrun', hb⟩ := hf a ha mid rest stop' hmore hrest
  exact ⟨b, stop'', (bind_run hrun).trans hrun', hb⟩

/-- The last of several parsers that stops where the whole does. -/
theorem bind_pure {x : Parser α} {f : α → Parser β} {Q : α → Prop} {R : β → Prop} (hx : Reads x ls P Q)
    (hf : ∀ a, Q a → Reads (f a) [] P R) : Reads (x >>= f) ls P R := by
  rw [← List.append_nil ls]
  exact hx.bind (fun _ hk => hk) hf

theorem map {f : α → β} {p : Parser α} {R : β → Prop} (h : Reads p ls P fun a => R (f a)) : Reads (f <$> p) ls P R := by
  rw [map_eq_pure_bind]
  exact h.bind_pure fun a ha => .pure ha

/-! ## Primitive parsers -/

variable {f : Token → Parser α} {g : Bool → Parser α}

/-- A look at the next token. -/
theorem peek (h : ∀ t, t.kind = l.kind → t.text = String.ofList l.chars → t.newlineBefore = false →
    Reads (f t) (l :: ls) P Q) : Reads (Parse.peek >>= f) (l :: ls) P Q := by
  intro s rest stop hs hrest
  cases hs with
  | @cons t _ s _ _ kind text line more => exact h t kind text line _ rest stop (.cons kind text line more) hrest

/-- A look at the next token, which may be the stop. -/
theorem peekStop (hnext : Begins N P ls) (h : ∀ t, N t.kind = true → Reads (f t) ls P Q) :
    Reads (Parse.peek >>= f) ls P Q := by
  intro s rest stop hs hrest
  obtain ⟨t, ht, hkind⟩ := hnext.stops hs hrest
  obtain ⟨a, stop', hrun, ha⟩ := h t hkind s rest stop hs hrest
  refine ⟨a, stop', ?_, ha⟩
  have hpeek : Parse.peek ⟨s, stop⟩ = .ok (t, ⟨s, stop⟩) := by
    show (nth 0 s >>= fun t => Except.ok (t, State.mk s stop)) = _
    rw [ht]
    rfl
  exact (bind_run hpeek).trans hrun

theorem advance (h : ∀ t, t.kind = l.kind → t.text = String.ofList l.chars → t.newlineBefore = false →
    Reads (f t) ls P Q) : Reads (Parse.advance >>= f) (l :: ls) P Q := by
  intro s rest stop hs hrest
  cases hs with
  | @cons t _ s _ _ kind text line more => exact h t kind text line s rest t.span.stop more hrest

/-- A look at the token behind the next one. -/
theorem peekNext {l' : Lexeme} (h : ∀ t, t.kind = l'.kind → Reads (f t) (l :: l' :: ls) P Q) :
    Reads (Parse.peekNth 1 >>= f) (l :: l' :: ls) P Q := by
  intro s rest stop hs hrest
  cases hs with
  | cons kind text line more =>
      cases more with
      | @cons t _ _ _ _ kind' text' line' more =>
          exact h t kind' _ rest stop (.cons kind text line (.cons kind' text' line' more)) hrest

theorem atPunct {mark : Punct} {b : Bool} (hnext : Begins (fun k => k.isMark mark == b) P ls)
    (h : Reads (g b) ls P Q) : Reads (Parse.atPunct mark >>= g) ls P Q := by
  unfold Parse.atPunct
  rw [bind_assoc]
  refine peekStop hnext fun t ht => ?_
  rw [pure_bind, Token.isPunct_eq, beq_iff_eq.1 ht]
  exact h

theorem eatPunct {mark : Punct} (h : Reads (g true) ls P Q) :
    Reads (Parse.eatPunct mark >>= g) (.mark mark :: ls) P Q := by
  unfold Parse.eatPunct
  rw [bind_assoc]
  refine atPunct (b := true) (by simp [Begins, Lexeme.mark]) ?_
  rw [if_pos rfl, bind_assoc]
  exact advance fun _ _ _ _ => by rwa [pure_bind]

theorem eatPunct_not {mark : Punct} (hnext : Begins (fun k => k.isMark mark == false) P ls)
    (h : Reads (g false) ls P Q) : Reads (Parse.eatPunct mark >>= g) ls P Q := by
  unfold Parse.eatPunct
  rw [bind_assoc]
  refine atPunct hnext ?_
  rw [if_neg Bool.false_ne_true, pure_bind]
  exact h

theorem eatKeyword {word : Keyword} {chars : List Char} (h : Reads (g true) ls P Q) :
    Reads (Parse.eatKeyword word >>= g) (⟨.keyword word, chars⟩ :: ls) P Q := by
  unfold Parse.eatKeyword Parse.atKeyword
  simp only [bind_assoc, pure_bind]
  refine peek fun t kind _ _ => ?_
  rw [Token.isKeyword_eq, kind, if_pos (by simp [Kind.isWord]), bind_assoc]
  exact advance fun _ _ _ _ => by rwa [pure_bind]

theorem eatKeyword_not {word : Keyword} (hnext : Begins (fun k => k.isWord word == false) P ls)
    (h : Reads (g false) ls P Q) : Reads (Parse.eatKeyword word >>= g) ls P Q := by
  unfold Parse.eatKeyword Parse.atKeyword
  simp only [bind_assoc, pure_bind]
  refine peekStop hnext fun t ht => ?_
  rw [Token.isKeyword_eq, beq_iff_eq.1 ht, if_neg Bool.false_ne_true, pure_bind]
  exact h

theorem expectPunct {mark : Punct} (h : ∀ t, Reads (f t) ls P Q) :
    Reads (Parse.expectPunct mark >>= f) (.mark mark :: ls) P Q := by
  unfold Parse.expectPunct
  rw [bind_assoc]
  refine atPunct (b := true) (by simp [Begins, Lexeme.mark]) ?_
  rw [if_pos rfl]
  exact advance fun t _ _ _ => h t

/-- A bound on the number of lexemes. -/
theorem bound {f : Nat → Parser α} (h : ∀ n, ls.length < n → Reads (f n) ls P Q) :
    Reads (Parse.bound >>= f) ls P Q := by
  intro s rest stop hs hrest
  have hlength := hs.length_eq
  exact h (s.length + 1) (by omega) s rest stop hs hrest

theorem spanFrom {f : Span → Parser α} {start : Span} (h : ∀ span, Reads (f span) ls P Q) :
    Reads (Parse.spanFrom start >>= f) ls P Q :=
  fun s rest stop hs hrest => h _ s rest stop hs hrest

/-- A target that an expression can be read as. -/
theorem lift {x : Target β} {b : β} {f : β → Parser α} (hx : x = .ok b) (h : Reads (f b) ls P Q) :
    Reads (liftM x >>= f) ls P Q := by
  subst hx
  exact h

end Reads

/-! ## Names -/

theorem bindingName_reads {name : String} (h : IsName name) :
    Reads bindingName [.word name] P fun id => id.name = name := by
  unfold bindingName
  refine .peek fun t kind _ _ => ?_
  rcases h.2 with hname | rfl
  · have hkind : t.kind = .identifier name := kind.trans hname
    simp only [hkind]
    exact .advance fun _ _ _ _ => .pure rfl
  · have hkind : t.kind = .keyword .asyncWord := kind
    simp only [hkind]
    exact .advance fun _ _ _ _ => .pure rfl

theorem propertyName_reads (name : String) : Reads propertyName [.word name] P fun id => id.name = name := by
  unfold propertyName
  refine .peek fun t kind _ _ => ?_
  rcases Token.wordKind_cases name with ⟨k, hkind, rfl⟩ | hkind | hkind
  · simp only [kind.trans hkind]
    exact .advance fun _ _ _ _ => .pure rfl
  · simp only [kind.trans hkind]
    exact .advance fun _ _ _ _ => .pure rfl
  · simp only [kind.trans hkind]
    exact .advance fun _ _ _ _ => .pure rfl

theorem semicolon_reads : Reads semicolon [.mark .semicolon] P fun _ => True :=
  .eatPunct (.pure trivial)

/-! ## Things with commas between them -/

open Token.Piece (lexemes)
open Layout (commas)

/-- Commas and closing marks. -/
def endsItem (close : Punct) (k : Kind) : Bool := k.isMark .comma || k.isMark close

theorem lexemes_commas_cons (ps qs : List Piece) (pss : List (List Piece)) :
    lexemes (commas (ps :: qs :: pss)) = lexemes ps ++ (.mark .comma :: lexemes (commas (qs :: pss))) := by
  simp [commas]

theorem length_le_commas {ps : List Piece} {pss : List (List Piece)} (h : ps ∈ pss) :
    (lexemes ps).length ≤ (lexemes (commas pss)).length := by
  induction pss with
  | nil => cases h
  | cons qs pss ih =>
      cases pss with
      | nil =>
          cases List.mem_singleton.1 h
          exact Nat.le_refl _
      | cons rs pss =>
          rw [lexemes_commas_cons, List.length_append, List.length_cons]
          rcases List.mem_cons.1 h with rfl | h
          · omega
          · have := ih h
            omega

variable {close : Punct} {item : Parser β} {lay : α → List Piece} {R : α → β → Prop}

/-- Things with commas between them in front of a closing mark. -/
theorem separated_reads (hclose : close ≠ .comma) {xs : List α}
    (hitem : ∀ x ∈ xs, Reads item (lexemes (lay x)) (endsItem close) (R x))
    (hfirst : ∀ x ∈ xs, ∃ l ls, lexemes (lay x) = l :: ls ∧ l.kind.isMark close = false) (fuel : Nat)
    (hfuel : (lexemes (commas (xs.map lay))).length < fuel) :
    Reads (separated close item fuel) (lexemes (commas (xs.map lay))) (·.isMark close) (List.Forall₂ R xs) := by
  induction xs generalizing fuel with
  | nil =>
      obtain ⟨fuel, rfl⟩ : ∃ k, fuel = k + 1 := ⟨fuel - 1, by omega⟩
      exact .atPunct (b := true) (fun k hk => by simpa using hk) (.pure .nil)
  | cons x xs ih =>
      obtain ⟨fuel, rfl⟩ : ∃ k, fuel = k + 1 := ⟨fuel - 1, by omega⟩
      obtain ⟨l, ls, hlay, hl⟩ := hfirst x List.mem_cons_self
      have hx := hitem x List.mem_cons_self
      have hmore := ih (fun y hy => hitem y (List.mem_cons_of_mem x hy)) fun y hy => hfirst y (List.mem_cons_of_mem x hy)
      cases xs with
      | nil =>
          have hbegins : Begins (fun k => k.isMark close == false) (·.isMark close) (lexemes (lay x)) := by
            simp [hlay, Begins, hl]
          refine .atPunct hbegins (.bind_pure (hx.stop fun k hk => by simp [endsItem, hk]) fun y hy => ?_)
          refine .eatPunct_not (fun k hk => ?_) (.pure (.cons hy .nil))
          rw [Kind.eq_of_isMark hk]
          simpa using hclose
      | cons x' xs =>
          rw [List.map_cons, List.map_cons, lexemes_commas_cons] at hfuel ⊢
          rw [List.length_append, List.length_cons] at hfuel
          have hbegins : Begins (fun k => k.isMark close == false) (·.isMark close)
              (lexemes (lay x) ++ (.mark .comma :: lexemes (commas (lay x' :: xs.map lay)))) := by
            simp [hlay, Begins, hl]
          refine .atPunct hbegins (.bind hx (by simp [Begins, endsItem, Lexeme.mark]) fun y hy => ?_)
          exact .eatPunct (.bind_pure (hmore fuel (by simp only [List.map_cons]; omega)) fun ys hys => .pure (.cons hy hys))

/-- Things with commas between them, of which one that is left out at the end has a comma of its own. -/
def commasWithHoles (lay : α → List Piece) (isHole : α → Bool) (xs : List α) : List Piece :=
  commas (xs.map lay) ++ if xs.getLast?.any isHole then Layout.mark .comma else []

theorem commasWithHoles_cons (lay : α → List Piece) (isHole : α → Bool) (x y : α) (xs : List α) :
    lexemes (commasWithHoles lay isHole (x :: y :: xs)) =
      lexemes (lay x) ++ (.mark .comma :: lexemes (commasWithHoles lay isHole (y :: xs))) := by
  simp [commasWithHoles, commas]

theorem commasWithHoles_hole {lay : α → List Piece} {isHole : α → Bool} {x : α} (hlay : lay x = [])
    (hx : isHole x = true) (xs : List α) :
    lexemes (commasWithHoles lay isHole (x :: xs)) = .mark .comma :: lexemes (commasWithHoles lay isHole xs) := by
  cases xs with
  | nil => simp [commasWithHoles, commas, hlay, hx]
  | cons y xs => simp [commasWithHoles_cons, hlay]

theorem length_le_commasWithHoles {lay : α → List Piece} {isHole : α → Bool} {x : α} {xs : List α} (h : x ∈ xs) :
    (lexemes (lay x)).length ≤ (lexemes (commasWithHoles lay isHole xs)).length := by
  rw [commasWithHoles, Piece.lexemes_append, List.length_append]
  have hle := length_le_commas (List.mem_map_of_mem (f := lay) h)
  omega

/-- Things of which some may be left out, in front of a closing mark. -/
theorem separatedWithHoles_reads (hclose : close ≠ .comma) {hole : β} {isHole : α → Bool} {xs : List α}
    (hitem : ∀ x ∈ xs, isHole x = false → Reads item (lexemes (lay x)) (endsItem close) (R x))
    (hfirst : ∀ x ∈ xs, isHole x = false → ∃ l ls, lexemes (lay x) = l :: ls ∧ l.kind.isMark close = false ∧
      l.kind.isMark .comma = false)
    (hhole : ∀ x ∈ xs, isHole x = true → lay x = [] ∧ R x hole) (fuel : Nat)
    (hfuel : (lexemes (commasWithHoles lay isHole xs)).length < fuel) :
    Reads (separatedWithHoles close hole item fuel) (lexemes (commasWithHoles lay isHole xs)) (·.isMark close)
      (List.Forall₂ R xs) := by
  induction xs generalizing fuel with
  | nil =>
      obtain ⟨fuel, rfl⟩ : ∃ k, fuel = k + 1 := ⟨fuel - 1, by omega⟩
      exact .atPunct (b := true) (fun k hk => by simpa using hk) (.pure .nil)
  | cons x xs ih =>
      obtain ⟨fuel, rfl⟩ : ∃ k, fuel = k + 1 := ⟨fuel - 1, by omega⟩
      have hmore := ih (fun y hy => hitem y (List.mem_cons_of_mem x hy)) (fun y hy => hfirst y (List.mem_cons_of_mem x hy))
        fun y hy => hhole y (List.mem_cons_of_mem x hy)
      cases hx : isHole x with
      | true =>
          obtain ⟨hlay, hR⟩ := hhole x List.mem_cons_self hx
          rw [commasWithHoles_hole hlay hx] at hfuel ⊢
          rw [List.length_cons] at hfuel
          refine .atPunct (b := false) (by simpa [Begins, Lexeme.mark] using hclose.symm) ?_
          exact .eatPunct (.bind_pure (hmore fuel (by omega)) fun ys hys => .pure (.cons hR hys))
      | false =>
          obtain ⟨l, ls, hlay, hl, hcomma⟩ := hfirst x List.mem_cons_self hx
          have hread := hitem x List.mem_cons_self hx
          cases xs with
          | nil =>
              have hlast : lexemes (commasWithHoles lay isHole [x]) = lexemes (lay x) := by
                simp [commasWithHoles, commas, hx]
              rw [hlast] at hfuel ⊢
              refine .atPunct (b := false) (by simp [hlay, Begins, hl]) ?_
              refine .eatPunct_not (by simp [hlay, Begins, hcomma]) ?_
              refine .bind_pure (hread.stop fun k hk => by simp [endsItem, hk]) fun y hy => ?_
              refine .eatPunct_not (fun k hk => ?_) (.pure (.cons hy .nil))
              rw [Kind.eq_of_isMark hk]
              simpa using hclose
          | cons x' xs =>
              rw [commasWithHoles_cons] at hfuel ⊢
              rw [List.length_append, List.length_cons] at hfuel
              refine .atPunct (b := false) (by simp [hlay, Begins, hl]) ?_
              refine .eatPunct_not (by simp [hlay, Begins, hcomma]) ?_
              refine .bind hread (by simp [Begins, endsItem, Lexeme.mark]) fun y hy => ?_
              exact .eatPunct (.bind_pure (hmore fuel (by omega)) fun ys hys => .pure (.cons hy hys))

end Parse
end FieldScript
