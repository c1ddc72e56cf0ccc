import FieldScript.Proofs.Parse.Draws
import FieldScript.Proofs.Syntax.SpanTree

/-!
# Which part of the text a parser covers

Tokens stand one behind another, none of them is empty, and each has the text of its span. A parser takes up the text
where the last token ended and leaves it where the last token that it consumed ends, so that the spans in its result can
be told from these two offsets (`Covers`).

* `Stream.ofSource_ordered`: the tokens of a source are in order from the offset on at which the scan starts.
* `Covers.skip`: the span of a token that is consumed lies between the two offsets.
* `Covers.bind`: what the second parser covers starts where the first one stops.
-/

namespace FieldScript

open Text
open Token (Stream)

/-! ## Streams in order -/

/-- A token that is not empty and lies between two offsets, with a text that is as told. -/
structure Token.At (I : Ident → Prop) (t : Token) (lo hi : Nat) : Prop where
  within : t.span.Within lo hi
  text : I ⟨t.text, t.span⟩
  word : ∀ word, t.kind.word? = some word → I ⟨word, t.span⟩

/-- A stream whose tokens stand one behind another from an offset on, none of them empty, with texts that are as told. -/
def Token.Stream.Ordered (I : Ident → Prop) : Nat → Stream → Prop
  | lo, .cons t rest => t.At I lo t.span.stop ∧ rest.Ordered I t.span.stop
  | lo, .done t => t.isEof = true ∧ lo ≤ t.span.start
  | _, .failed _ => True

/-- A scan that starts at its place in a source. -/
theorem Token.scan_ordered {source : Source} {fuel : Nat} {d : Depths} {pre : List Char} {c : Cursor}
    (hsource : source.chars = pre ++ c.rest) (hoffset : c.offset = byteLength pre) :
    (Stream.scan fuel d c).Ordered source.Holds c.offset := by
  induction fuel generalizing d pre c with
  | zero => trivial
  | succ fuel ih =>
      unfold Stream.scan
      split
      · trivial
      · rename_i t d' next htoken
        obtain ⟨blank, first, w, hblank, hw, hspan, htext⟩ := scanToken_passes htoken
        have hbefore : c.offset ≤ first.offset := by
          rw [hblank.offset]
          omega
        split
        · rename_i heof
          refine ⟨heof, ?_⟩
          rw [hspan]
          exact hbefore
        · rename_i heof
          rw [Bool.not_eq_true, isEof_eq] at heof
          have hfirst : source.chars = (pre ++ blank) ++ first.rest := by
            rw [hsource, hblank.rest, List.append_assoc]
          have hplace : first.offset = byteLength (pre ++ blank) := by
            rw [hblank.offset, hoffset, byteLength_append]
          have hafter : source.chars = (pre ++ blank ++ w) ++ next.rest := by
            rw [hfirst, hw.rest, ← List.append_assoc]
          have hstop : next.offset = byteLength (pre ++ blank ++ w) := by
            rw [hw.offset, hplace, ← byteLength_append]
          have hpos : 0 < byteLength w := by
            obtain ⟨x, rest, rfl⟩ := List.exists_cons_of_ne_nil (hw.ne_nil heof)
            have hsize := Char.utf8Size_pos x
            rw [byteLength_cons]
            omega
          have hbehind : first.offset < next.offset := by
            rw [hw.offset]
            omega
          rw [Stream.Ordered, hspan]
          refine ⟨⟨?_, ?_, fun word hword => ?_⟩, ih hafter hstop⟩
          · rw [hspan]
            exact ⟨hbefore, hbehind, Nat.le_refl _⟩
          · rw [hspan, htext]
            exact holds_of_moves hfirst hplace hw.toMoves String.toList_ofList.symm
          · rw [hspan]
            exact holds_of_moves hfirst hplace hw.toMoves (hw.word word hword)

theorem Token.Stream.Ordered.mono {I : Ident → Prop} {s : Stream} {lo start : Nat} (h : s.Ordered I start)
    (hle : lo ≤ start) : s.Ordered I lo := by
  cases s with
  | cons t rest => exact ⟨⟨h.1.within.mono hle (Nat.le_refl _), h.1.text, h.1.word⟩, h.2⟩
  | done t => exact ⟨h.1, Nat.le_trans hle h.2⟩
  | failed fault => trivial

/-- The tokens are in order from the next one on. -/
theorem Token.Stream.Ordered.from {I : Ident → Prop} {s : Stream} {t : Token} {start : Nat} (h : s.Ordered I start)
    (ht : Parse.nth 0 s = .ok t) : start ≤ t.span.start ∧ s.Ordered I t.span.start := by
  cases s with
  | cons t' rest =>
      cases ht
      have hwithin := h.1.within
      exact ⟨hwithin.start, ⟨⟨Nat.le_refl _, hwithin.nonempty, Nat.le_refl _⟩, h.1.text, h.1.word⟩, h.2⟩
  | done t' =>
      cases ht
      exact ⟨h.2, h.1, Nat.le_refl _⟩
  | failed fault => cases ht

/-- The tokens of a source from an offset on. -/
theorem Token.Stream.ofSource_ordered {source : Source} {offset : Nat} (h : offset ≤ source.size) :
    (ofSource source offset).Ordered source.Holds offset := by
  simp only [ofSource, Nat.min_eq_left h]
  split
  · rename_i rest hrest
    obtain ⟨pre, hsource, hlength⟩ := exists_of_dropBytes? hrest
    exact scan_ordered (c := ⟨rest, offset⟩) hsource hlength
  · trivial

namespace Parse

variable {α β : Type}

/-- Nothing has been consumed, or at least the next token. -/
def Progress (st st' : State) : Prop := st' = st ∨ ∃ t rest, st.stream = .cons t rest ∧ t.span.stop ≤ st'.lastEnd

/-- A parser that takes up a stream at an offset, where the next token is as told and stands at or behind another offset.
It leaves the stream in order at a later offset, and the result is as told by that one. -/
def Covers (I : Ident → Prop) (N : Token → Prop) (start lo : Nat) (p : Parser α) (Q : α → Nat → Prop) : Prop :=
  ∀ st a st', st.stream.Ordered I start → lo ≤ start → st.lastEnd = lo → (∀ t, nth 0 st.stream = .ok t → N t) →
    p st = .ok (a, st') → st'.stream.Ordered I st'.lastEnd ∧ lo ≤ st'.lastEnd ∧ Progress st st' ∧ Q a st'.lastEnd

/-- Nothing is told of a result. -/
abbrev AnyResult : α → Nat → Prop := fun _ _ => True

variable {I : Ident → Prop} {N N' : Token → Prop} {start lo : Nat} {Q R : α → Nat → Prop} {p : Parser α} {t : Token}

namespace Covers

theorem pure {a : α} (h : Q a lo) : Covers I N start lo (Pure.pure a) Q := by
  rintro st _ _ hst hle rfl - ⟨⟩
  exact ⟨hst.mono hle, Nat.le_refl _, .inl rfl, h⟩

theorem fail {cause : SyntaxFault.Cause} {span : Span} : Covers I N start lo (Parse.fail cause span) Q := by
  rintro st _ _ - - - - ⟨⟩

theorem mono (h : Covers I N start lo p Q) (himp : ∀ a hi, lo ≤ hi → Q a hi → R a hi) : Covers I N start lo p R := by
  intro st a st' hst hle hlo hnext hrun
  obtain ⟨hst', hle', hprogress, ha⟩ := h st a st' hst hle hlo hnext hrun
  exact ⟨hst', hle', hprogress, himp a _ hle' ha⟩

/-- More is known of the next token. -/
theorem next (h : Covers I N start lo p Q) (himp : ∀ t, N' t → N t) : Covers I N' start lo p Q :=
  fun st a st' hst hle hlo hnext hrun => h st a st' hst hle hlo (fun t ht => himp t (hnext t ht)) hrun

theorem any (h : Covers I AnyToken start lo p Q) : Covers I N start lo p Q := h.next fun _ _ => trivial

/-- One parser behind another. -/
theorem bind {x : Parser α} {f : α → Parser β} {R : β → Nat → Prop} (hx : Covers I N start lo x Q)
    (hf : ∀ a mid, lo ≤ mid → Q a mid → Covers I AnyToken mid mid (f a) R) : Covers I N start lo (x >>= f) R := by
  intro st b st' hst hle hlo hnext hrun
  obtain ⟨a, mid, hx', hf'⟩ := exists_of_bind hrun
  obtain ⟨hmid, hle, hprogress, ha⟩ := hx st a mid hst hle hlo hnext hx'
  obtain ⟨hst', hle', hprogress', hb⟩ :=
    hf a mid.lastEnd hle ha mid b st' hmid (Nat.le_refl _) rfl (fun _ _ => trivial) hf'
  refine ⟨hst', Nat.le_trans hle hle', ?_, hb⟩
  rcases hprogress with rfl | ⟨t, rest, ht, hstop⟩
  · exact hprogress'
  · exact .inr ⟨t, rest, ht, Nat.le_trans hstop hle'⟩

theorem map {f : α → β} {R : β → Nat → Prop} (h : Covers I N start lo p fun a hi => R (f a) hi) :
    Covers I N start lo (f <$> p) R := by
  rw [map_eq_pure_bind]
  exact h.bind fun a mid _ ha => .pure ha

/-- What looks at the state only. -/
theorem look {x : Parser α} {f : α → Parser β} {R : β → Nat → Prop} (hx : ∀ st a st', x st = .ok (a, st') → st' = st)
    (hf : ∀ a, Covers I N start lo (f a) R) : Covers I N start lo (x >>= f) R := by
  intro st b st' hst hle hlo hnext hrun
  obtain ⟨a, mid, hx', hf'⟩ := exists_of_bind hrun
  rw [hx st a mid hx'] at hf'
  exact hf a st b st' hst hle hlo hnext hf'

/-! ## Primitive parsers -/

variable {f : Token → Parser α} {g : Bool → Parser α}

/-- From a look at the next token on it is known. -/
theorem peek (h : ∀ t, N t → Covers I (· = t) start lo (f t) Q) : Covers I N start lo (Parse.peek >>= f) Q := by
  intro st a st' hst hle hlo hnext hrun
  obtain ⟨t, mid, hpeek, hrun'⟩ := exists_of_bind hrun
  obtain ⟨ht, rfl⟩ := Consumes.peek_eq hpeek
  refine h t (hnext t ht) mid a st' hst hle hlo (fun t' ht' => ?_) hrun'
  exact Except.ok.inj (ht'.symm.trans ht)

theorem peekNth {k : Nat} (h : ∀ t, Covers I N start lo (f t) Q) : Covers I N start lo (Parse.peekNth k >>= f) Q := by
  refine look (fun st a st' hrun => ?_) h
  change (nth k st.stream >>= fun t => Except.ok (t, st)) = .ok (a, st') at hrun
  cases hk : nth k st.stream with
  | error fault =>
      rw [hk] at hrun
      cases hrun
  | ok t =>
      rw [hk] at hrun
      cases hrun
      rfl

/-- From a look at the next token on it is known, and with it where it starts. -/
theorem peekFrom (h : ∀ t, N t → start ≤ t.span.start → Covers I (· = t) t.span.start lo (f t) Q) :
    Covers I N start lo (Parse.peek >>= f) Q := by
  intro st a st' hst hle hlo hnext hrun
  obtain ⟨t, mid, hpeek, hrun'⟩ := exists_of_bind hrun
  obtain ⟨ht, rfl⟩ := Consumes.peek_eq hpeek
  obtain ⟨hstart, hfrom⟩ := hst.from ht
  refine h t (hnext t ht) hstart mid a st' hfrom (Nat.le_trans hle hstart) hlo (fun t' ht' => ?_) hrun'
  exact Except.ok.inj (ht'.symm.trans ht)

/-- What cannot be told where nothing is consumed is told behind the next token. -/
theorem consumed (h : Covers I (· = t) start lo p Q) (hnone : ∀ a, ¬ Q a lo) :
    Covers I (· = t) start lo p fun a hi => Q a hi ∧ t.span.Within start hi := by
  intro st a st' hst hle hlo hnext hrun
  obtain ⟨hst', hle', hprogress, ha⟩ := h st a st' hst hle hlo hnext hrun
  refine ⟨hst', hle', hprogress, ha, ?_⟩
  rcases hprogress with rfl | ⟨t', rest, ht', hstop⟩
  · exact absurd (hlo ▸ ha) (hnone a)
  · rw [ht'] at hst
    rw [← hnext t' (by rw [ht']; rfl)]
    exact hst.1.within.mono (Nat.le_refl _) hstop

/-- Consumes a token, or stays at the end. -/
theorem advance (h : ∀ t mid, N t → lo ≤ mid → (t.isEof = false → t.At I start mid) → Covers I AnyToken mid mid (f t) Q) :
    Covers I N start lo (Parse.advance >>= f) Q := by
  intro st a st' hst hle hlo hnext hrun
  obtain ⟨t, mid, hadvance, hrun'⟩ := exists_of_bind hrun
  obtain ⟨stream, lastEnd⟩ := st
  cases stream with
  | cons t' rest =>
      cases hadvance
      obtain ⟨hat, hrest⟩ := hst
      have hle' : lo ≤ t.span.stop := Nat.le_trans hle (Nat.le_of_lt hat.within.lt)
      obtain ⟨hst', hle'', -, ha⟩ := h t t.span.stop (hnext t rfl) hle' (fun _ => hat) _ a st' hrest (Nat.le_refl _) rfl
        (fun _ _ => trivial) hrun'
      exact ⟨hst', Nat.le_trans hle' hle'', .inr ⟨t, rest, rfl, hle''⟩, ha⟩
  | done t' =>
      cases hadvance
      have hend : t.isEof = false → t.At I start lo := by
        intro heof
        cases heof.symm.trans hst.1
      exact h t lo (hnext t rfl) (Nat.le_refl _) hend _ a st' (hst.mono hle) (Nat.le_refl _) hlo (fun _ _ => trivial) hrun'
  | failed fault => cases hadvance

/-- Consumes a token that is not the end. -/
theorem skip (hend : t.isEof = false) (h : ∀ mid, t.At I start mid → Covers I AnyToken mid mid (f t) Q) :
    Covers I (· = t) start lo (Parse.advance >>= f) Q := by
  refine advance fun t' mid ht' _ hat => ?_
  subst ht'
  exact h mid (hat hend)

theorem atPunct {mark : Punct} (h : ∀ b, Covers I (fun t => N t ∧ t.isPunct mark = b) start lo (g b) Q) :
    Covers I N start lo (Parse.atPunct mark >>= g) Q := by
  unfold Parse.atPunct
  rw [bind_assoc]
  refine peek fun t ht => ?_
  rw [pure_bind]
  refine (h (t.isPunct mark)).next ?_
  rintro _ rfl
  exact ⟨ht, rfl⟩

theorem eatPunct {mark : Punct} (htrue : ∀ t mid, N t → t.span.Within start mid → Covers I AnyToken mid mid (g true) Q)
    (hfalse : Covers I (fun t => N t ∧ t.isPunct mark = false) start lo (g false) Q) : Covers I N start lo (Parse.eatPunct mark >>= g) Q := by
  unfold Parse.eatPunct
  rw [bind_assoc]
  refine atPunct fun b => ?_
  cases b with
  | false =>
      rw [if_neg Bool.false_ne_true, pure_bind]
      exact hfalse
  | true =>
      rw [if_pos rfl, bind_assoc]
      refine advance fun t mid ht _ hat => ?_
      rw [pure_bind]
      exact htrue t mid ht.1 (hat (Draws.isEof_of_isPunct ht.2)).within

theorem eatKeyword {word : Keyword} (htrue : ∀ mid, lo ≤ mid → Covers I AnyToken mid mid (g true) Q)
    (hfalse : Covers I N start lo (g false) Q) : Covers I N start lo (Parse.eatKeyword word >>= g) Q := by
  unfold Parse.eatKeyword Parse.atKeyword
  simp only [bind_assoc, pure_bind]
  refine peek fun t ht => ?_
  cases t.isKeyword word with
  | false =>
      rw [if_neg Bool.false_ne_true, pure_bind]
      exact hfalse.next fun _ heq => heq ▸ ht
  | true =>
      rw [if_pos rfl, bind_assoc]
      refine advance fun _ mid _ hle _ => ?_
      rw [pure_bind]
      exact htrue mid hle

theorem unexpected : Covers I N start lo (Parse.unexpected : Parser α) Q := by
  refine peek fun t _ => ?_
  split <;> exact fail

/-- A mark that has to come next. -/
theorem expectPunct {mark : Punct} (h : ∀ t mid, t.span.Within start mid → Covers I AnyToken mid mid (f t) Q) :
    Covers I N start lo (Parse.expectPunct mark >>= f) Q := by
  unfold Parse.expectPunct
  rw [bind_assoc]
  refine atPunct fun b => ?_
  cases b with
  | false =>
      rw [if_neg Bool.false_ne_true, bind_assoc]
      exact peek fun _ _ => bind (Q := fun _ _ => False) fail nofun
  | true =>
      rw [if_pos rfl]
      exact advance fun t mid ht _ hat => h t mid (hat (Draws.isEof_of_isPunct ht.2)).within

theorem bound {f : Nat → Parser α} (h : ∀ n, Covers I N start lo (f n) Q) : Covers I N start lo (Parse.bound >>= f) Q :=
  look (by rintro st a st' ⟨⟩; rfl) h

theorem spanFrom {f : Span → Parser α} {s : Span} (h : ∀ span, span = s.merge (.point lo) → Covers I N start lo (f span) Q) :
    Covers I N start lo (Parse.spanFrom s >>= f) Q := by
  intro st a st' hst hle hlo hnext hrun
  obtain ⟨span, mid, hspan, hrun'⟩ := exists_of_bind hrun
  cases hspan
  rw [hlo] at hrun'
  exact h _ rfl st a st' hst hle hlo hnext hrun'

theorem exhausted : Covers I N start lo (Parse.exhausted : Parser α) Q :=
  look (x := Parse.lastEnd) (by rintro st a st' ⟨⟩; rfl) fun _ => fail

theorem lift {x : Target β} {f : β → Parser α} (h : ∀ b, x = .ok b → Covers I N start lo (f b) Q) :
    Covers I N start lo (liftM x >>= f) Q := by
  cases x with
  | error fault => rintro st _ _ - - - - ⟨⟩
  | ok b => exact h b rfl

end Covers

/-! ## Names -/

/-- A name is the token at hand. -/
theorem bindingName_covers :
    Covers I N start lo bindingName fun id hi => id.span.Within start hi ∧ I id ∧ ∃ t, N t ∧ id.span = t.span := by
  refine .peek fun t ht => ?_
  split
  · rename_i name hkind
    have hend : t.isEof = false := by rw [Token.isEof_eq, hkind]; rfl
    exact .skip hend fun _ hat => .pure ⟨hat.within, hat.word name (by rw [hkind]; rfl), t, ht, rfl⟩
  · rename_i hkind
    have hend : t.isEof = false := by rw [Token.isEof_eq, hkind]; rfl
    exact .skip hend fun _ hat => .pure ⟨hat.within, hat.word "async" (by rw [hkind]; rfl), t, ht, rfl⟩
  · exact .unexpected

/-- A word is the token at hand. -/
theorem propertyName_covers :
    Covers I N start lo propertyName fun id hi => id.span.Within start hi ∧ I id ∧ ∃ t, N t ∧ id.span = t.span := by
  refine .peek fun t ht => ?_
  have hword : ∀ word, t.isEof = false → t.kind.word? = some word →
      Covers I (· = t) start lo (advance >>= fun _ => pure ⟨word, t.span⟩) fun id : Ident => fun hi =>
        id.span.Within start hi ∧ I id ∧ ∃ t, N t ∧ id.span = t.span :=
    fun word hend hkind => .skip hend fun _ hat => .pure ⟨hat.within, hat.word word hkind, t, ht, rfl⟩
  split
  · rename_i word hkind
    exact hword word (by rw [Token.isEof_eq, hkind]; rfl) (by rw [hkind]; rfl)
  · rename_i word hkind
    exact hword word.text (by rw [Token.isEof_eq, hkind]; rfl) (by rw [hkind]; rfl)
  · rename_i word hkind
    exact hword word (by rw [Token.isEof_eq, hkind]; rfl) (by rw [hkind]; rfl)
  · exact .unexpected

theorem semicolon_covers : Covers I N start lo semicolon AnyResult := by
  refine .eatPunct (fun _ _ _ _ => .pure trivial) (.peek fun t _ => ?_)
  split
  · exact .pure trivial
  · exact .unexpected

/-! ## Things with commas between them -/

variable {item : Parser α} {spans : α → List SpanTree}

theorem separated_covers {close : Punct}
    (hitem : ∀ lo, Covers I AnyToken lo lo item fun x hi => LaidRow I lo hi (spans x)) (fuel : Nat) :
    Covers I N lo lo (separated close item fuel) fun xs hi => LaidRow I lo hi (xs.flatMap spans) := by
  induction fuel generalizing N lo with
  | zero => exact .exhausted
  | succ fuel ih =>
      refine .atPunct fun b => ?_
      cases b with
      | true => exact .pure (Nat.le_refl _)
      | false =>
          refine .bind (hitem lo).any fun x mid _ hx => .eatPunct (fun _ mid' _ hcomma => ?_) (.pure ?_)
          · refine .bind ih fun xs hi _ hxs => .pure ?_
            rw [List.flatMap_cons]
            exact hx.append (hxs.mono (Nat.le_of_lt hcomma.lt) (Nat.le_refl _))
          · rwa [List.flatMap_singleton]

theorem separatedWithHoles_covers {close : Punct} {hole : α} (hhole : spans hole = [])
    (hitem : ∀ lo, Covers I AnyToken lo lo item fun x hi => LaidRow I lo hi (spans x)) (fuel : Nat) :
    Covers I N lo lo (separatedWithHoles close hole item fuel) fun xs hi => LaidRow I lo hi (xs.flatMap spans) := by
  induction fuel generalizing N lo with
  | zero => exact .exhausted
  | succ fuel ih =>
      have hmore : ∀ x mid mid', LaidRow I lo mid (spans x) → mid ≤ mid' → Covers I AnyToken mid' mid'
          (separatedWithHoles close hole item fuel >>= fun xs => pure (x :: xs)) fun xs hi =>
            LaidRow I lo hi (xs.flatMap spans) := by
        refine fun x mid mid' hx hle => .bind ih fun xs hi _ hxs => .pure ?_
        rw [List.flatMap_cons]
        exact hx.append (hxs.mono hle (Nat.le_refl _))
      have hnone : LaidRow I lo lo (spans hole) := by
        rw [hhole]
        exact Nat.le_refl _
      refine .atPunct fun b => ?_
      cases b with
      | true => exact .pure (Nat.le_refl _)
      | false =>
          refine .eatPunct (fun _ mid _ hcomma => hmore hole lo mid hnone (Nat.le_of_lt hcomma.lt)) ?_
          refine .bind (hitem lo).any fun x mid _ hx => .eatPunct (fun _ mid' _ hcomma => ?_) (.pure ?_)
          · exact hmore x mid mid' hx (Nat.le_of_lt hcomma.lt)
          · rwa [List.flatMap_singleton]

end Parse
end FieldScript
