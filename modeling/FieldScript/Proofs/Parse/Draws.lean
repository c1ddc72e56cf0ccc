import FieldScript.Proofs.Parse.Consumes
import FieldScript.Proofs.Token.Places

/-!
# What a parser draws from its tokens

A parser recurses only behind a token that it has consumed, so that as many levels as there are tokens suffice. The
rules here keep count: below a number of tokens a parser fails only with a fault of the text (`Draws`), it consumes at
least so many tokens where it succeeds, and its result is as told if the names of the stream are.
-/

namespace FieldScript

open Token (Stream)

/-- A token whose name, if it is one, is as told. -/
def Token.Named (I : Ident → Prop) (t : Token) : Prop := ∀ name, t.kind.name? = some name → I ⟨name, t.span⟩

namespace Parse

variable {α β : Type} {I : Ident → Prop} {t : Token}

theorem nth_textual {s : Stream} (hs : s.Names I) (n : Nat) : Textual (nth n s) := by
  induction s generalizing n with
  | cons t rest ih =>
      cases n with
      | zero => exact .ok t
      | succ n => exact ih hs.2.2 n
  | done t =>
      cases n <;> exact .ok t
  | failed fault =>
      cases n <;> (rintro _ ⟨⟩; exact hs)

theorem named_of_nth {s : Stream} (hs : s.Names I) (ht : nth 0 s = .ok t) : t.Named I := by
  cases s with
  | cons t' rest =>
      cases ht
      exact hs.1
  | done t' =>
      cases ht
      have heof : t.kind.isEnd = true := (Token.isEof_eq t).symm.trans hs
      intro name hname
      unfold Token.Kind.isEnd at heof
      split at heof
      · rename_i hkind
        rw [hkind] at hname
        cases hname
      · cases heof
  | failed fault => cases ht

/-- A parser that, below `n` tokens of which the next is as told, does not run into a bound, and that consumes at least
`k` of them where its result is as told. -/
def Draws (I : Ident → Prop) (N : Token → Prop) (n k : Nat) (p : Parser α) (Q : α → Prop) : Prop :=
  ∀ st, st.stream.Names I → st.stream.length < n → (∀ t, nth 0 st.stream = .ok t → N t) →
    Textual (p st) ∧ ∀ a st', p st = .ok (a, st') →
      st'.stream.Names I ∧ st'.stream.length + k ≤ st.stream.length ∧ Q a

variable {N N' : Token → Prop} {n m k : Nat} {Q R : α → Prop} {p : Parser α}

namespace Draws

/-- There is no stream below no token. -/
theorem zero : Draws I N 0 k p Q := fun _ _ hlt => absurd hlt (Nat.not_lt_zero _)

theorem pure {a : α} (h : Q a) : Draws I N n 0 (Pure.pure a) Q := by
  refine fun st hst _ _ => ⟨.ok _, ?_⟩
  rintro _ _ ⟨⟩
  exact ⟨hst, Nat.le_refl _, h⟩

theorem fail {cause : SyntaxFault.Cause} {span : Span} (h : cause ≠ .exhausted) :
    Draws I N n k (Parse.fail cause span) Q :=
  fun _ _ _ _ => ⟨.error h, nofun⟩

theorem mono (h : Draws I N n k p Q) (himp : ∀ a, Q a → R a) : Draws I N n k p R := by
  intro st hst hlt hnext
  refine ⟨(h st hst hlt hnext).1, fun a st' hrun => ?_⟩
  obtain ⟨hst', hle, ha⟩ := (h st hst hlt hnext).2 a st' hrun
  exact ⟨hst', hle, himp a ha⟩

/-- Below fewer tokens. -/
theorem le (h : Draws I N n k p Q) (hle : m ≤ n) : Draws I N m k p Q :=
  fun st hst hlt => h st hst (Nat.lt_of_lt_of_le hlt hle)

/-- The tokens consumed are not counted. -/
theorem lax (h : Draws I N n k p Q) : Draws I N n 0 p Q := by
  intro st hst hlt hnext
  refine ⟨(h st hst hlt hnext).1, fun a st' hrun => ?_⟩
  obtain ⟨hst', hle, ha⟩ := (h st hst hlt hnext).2 a st' hrun
  exact ⟨hst', by omega, ha⟩

/-- More is known of the next token. -/
theorem next (h : Draws I N n k p Q) (himp : ∀ t, N' t → N t) : Draws I N' n k p Q :=
  fun st hst hlt hnext => h st hst hlt fun t ht => himp t (hnext t ht)

theorem any (h : Draws I AnyToken n k p Q) : Draws I N n k p Q := h.next fun _ _ => trivial

/-! ## One parser behind another -/

variable {x : Parser α} {f : α → Parser β} {R : β → Prop}

theorem seq {i j : Nat} (hx : Draws I N n i x Q) (hf : ∀ a, Q a → Draws I AnyToken m j (f a) R) (hm : n ≤ m + i)
    (hk : k ≤ i + j) : Draws I N n k (x >>= f) R := by
  intro st hst hlt hnext
  obtain ⟨htextual, hresult⟩ := hx st hst hlt hnext
  refine ⟨?_, fun b st' hrun => ?_⟩
  · refine htextual.bind fun r hr => ?_
    obtain ⟨hmid, hle, ha⟩ := hresult r.1 r.2 hr
    exact (hf r.1 ha r.2 hmid (by omega) fun _ _ => trivial).1
  · obtain ⟨a, mid, hx', hf'⟩ := exists_of_bind hrun
    obtain ⟨hmid, hle, ha⟩ := hresult a mid hx'
    obtain ⟨hst', hle', hb⟩ := (hf a ha mid hmid (by omega) fun _ _ => trivial).2 b st' hf'
    exact ⟨hst', by omega, hb⟩

/-- The second parser is as good as both. -/
theorem bind (hx : Draws I N n 0 x Q) (hf : ∀ a, Q a → Draws I AnyToken n k (f a) R) : Draws I N n k (x >>= f) R :=
  hx.seq hf (Nat.le_refl _) (by omega)

/-- The first parser consumes a token, so that the second one has fewer left. -/
theorem enter (hx : Draws I N (n + 1) 1 x Q) (hf : ∀ a, Q a → Draws I AnyToken n 0 (f a) R) :
    Draws I N (n + 1) 1 (x >>= f) R :=
  hx.seq hf (Nat.le_refl _) (Nat.le_refl _)

/-- The first parser consumes a token. -/
theorem first (hx : Draws I N n 1 x Q) (hf : ∀ a, Q a → Draws I AnyToken n 0 (f a) R) : Draws I N n 1 (x >>= f) R :=
  hx.seq hf (Nat.le_succ _) (Nat.le_refl _)

theorem map {g : α → β} (h : Draws I N n k p fun a => R (g a)) : Draws I N n k (g <$> p) R := by
  rw [map_eq_pure_bind]
  exact h.seq (fun a ha => .pure ha) (Nat.le_add_right n k) (Nat.le_refl _)

/-- What looks at the state only. -/
theorem look (htextual : ∀ st, st.stream.Names I → Textual (x st))
    (hx : ∀ st a st', st.stream.Names I → x st = .ok (a, st') → st' = st ∧ Q a)
    (hf : ∀ a, Q a → Draws I N n k (f a) R) : Draws I N n k (x >>= f) R := by
  intro st hst hlt hnext
  refine ⟨(htextual st hst).bind fun r hr => ?_, fun b st' hrun => ?_⟩
  · obtain ⟨hsame, ha⟩ := hx st r.1 r.2 hst hr
    show Textual (f r.1 r.2)
    rw [hsame]
    exact (hf r.1 ha st hst hlt hnext).1
  · obtain ⟨a, mid, hx', hf'⟩ := exists_of_bind hrun
    obtain ⟨rfl, ha⟩ := hx st a mid hst hx'
    exact (hf a ha mid hst hlt hnext).2 b st' hf'

/-! ## Primitive parsers -/

variable {f : Token → Parser α} {g : Bool → Parser α} {Q : α → Prop}

/-- From a look at the next token on it is known. -/
theorem peek (h : ∀ t, N t → t.Named I → Draws I (· = t) n k (f t) Q) : Draws I N n k (Parse.peek >>= f) Q := by
  intro st hst hlt hnext
  have hsame : ∀ t, nth 0 st.stream = .ok t → ∀ t', nth 0 st.stream = .ok t' → t' = t := by
    intro t ht t' ht'
    rw [ht] at ht'
    cases ht'
    rfl
  refine ⟨Textual.bind ?_ fun r hr => ?_, fun a st' hrun => ?_⟩
  · exact (nth_textual hst 0).bind fun t _ => .ok (t, st)
  · obtain ⟨ht, hmid⟩ := Consumes.peek_eq (show Parse.peek st = .ok (r.1, r.2) from hr)
    show Textual (f r.1 r.2)
    rw [hmid]
    exact (h r.1 (hnext r.1 ht) (named_of_nth hst ht) st hst hlt (hsame r.1 ht)).1
  · obtain ⟨t, mid, hpeek, hrun'⟩ := exists_of_bind hrun
    obtain ⟨ht, rfl⟩ := Consumes.peek_eq hpeek
    exact (h t (hnext t ht) (named_of_nth hst ht) mid hst hlt (hsame t ht)).2 a st' hrun'

theorem peekNth {i : Nat} (h : ∀ t, Draws I N n k (f t) Q) : Draws I N n k (Parse.peekNth i >>= f) Q := by
  refine look (Q := fun _ => True) (fun st hst => (nth_textual hst i).bind fun t _ => .ok (t, st)) ?_ fun t _ => h t
  intro st t st' _ hrun
  change (nth i st.stream >>= fun t => Except.ok (t, st)) = .ok (t, st') at hrun
  cases hi : nth i st.stream with
  | error fault =>
      rw [hi] at hrun
      cases hrun
  | ok t =>
      rw [hi] at hrun
      cases hrun
      exact ⟨rfl, trivial⟩

/-- Consumes a token, or stays at the end. -/
theorem advance (h : ∀ t, N t → t.Named I → Draws I AnyToken n k (f t) Q) :
    Draws I N n k (Parse.advance >>= f) Q := by
  intro st hst hlt hnext
  obtain ⟨stream, lastEnd⟩ := st
  cases stream with
  | cons t rest =>
      change rest.length + 1 < n at hlt
      obtain ⟨htextual, hresult⟩ := h t (hnext t rfl) hst.1 ⟨rest, t.span.stop⟩ hst.2.2 (show rest.length < n by omega)
        fun _ _ => trivial
      refine ⟨htextual, fun a st' hrun => ?_⟩
      obtain ⟨hst', hle, ha⟩ := hresult a st' hrun
      refine ⟨hst', ?_, ha⟩
      change st'.stream.length + k ≤ rest.length at hle
      show st'.stream.length + k ≤ rest.length + 1
      omega
  | done t => exact h t (hnext t rfl) (named_of_nth (s := .done t) hst rfl) ⟨.done t, lastEnd⟩ hst hlt fun _ _ => trivial
  | failed fault =>
      refine ⟨?_, nofun⟩
      rintro _ ⟨⟩
      exact hst

/-- Consumes a token that is not the end. -/
theorem skip_seq {j : Nat} (hend : t.isEof = false) (h : Draws I AnyToken m j (f t) Q) (hm : n ≤ m + 1) (hk : k ≤ j + 1) :
    Draws I (· = t) n k (Parse.advance >>= f) Q := by
  intro st hst hlt hnext
  obtain ⟨stream, lastEnd⟩ := st
  cases stream with
  | cons t' rest =>
      obtain rfl : t' = t := hnext t' rfl
      change rest.length + 1 < n at hlt
      obtain ⟨htextual, hresult⟩ := h ⟨rest, t'.span.stop⟩ hst.2.2 (show rest.length < m by omega) fun _ _ => trivial
      refine ⟨htextual, fun a st' hrun => ?_⟩
      obtain ⟨hst', hle, ha⟩ := hresult a st' hrun
      refine ⟨hst', ?_, ha⟩
      change st'.stream.length + j ≤ rest.length at hle
      show st'.stream.length + k ≤ rest.length + 1
      omega
  | done t' =>
      obtain rfl : t' = t := hnext t' rfl
      have heof : t'.isEof = true := hst
      cases heof.symm.trans hend
  | failed fault =>
      refine ⟨?_, nofun⟩
      rintro _ ⟨⟩
      exact hst

theorem skip (hend : t.isEof = false) (h : Draws I AnyToken n 0 (f t) Q) :
    Draws I (· = t) (n + 1) 1 (Parse.advance >>= f) Q :=
  skip_seq hend h (Nat.le_refl _) (Nat.le_refl _)

/-- Consumes a token where fewer would not matter. -/
theorem skip_first (hend : t.isEof = false) (h : Draws I AnyToken n 0 (f t) Q) :
    Draws I (· = t) n 1 (Parse.advance >>= f) Q :=
  skip_seq hend h (Nat.le_succ _) (Nat.le_refl _)

theorem atPunct {mark : Punct} (h : ∀ b, Draws I (fun t => N t ∧ t.isPunct mark = b) n k (g b) Q) :
    Draws I N n k (Parse.atPunct mark >>= g) Q := by
  unfold Parse.atPunct
  rw [bind_assoc]
  refine peek fun t ht _ => ?_
  rw [pure_bind]
  refine (h (t.isPunct mark)).next ?_
  rintro _ rfl
  exact ⟨ht, rfl⟩

theorem isEof_of_isPunct {mark : Punct} (h : t.isPunct mark = true) : t.isEof = false := by
  unfold Token.isPunct at h
  unfold Token.isEof
  split at h
  · rename_i hkind
    rw [hkind]
  · cases h

theorem isEof_of_isKeyword {word : Keyword} (h : t.isKeyword word = true) : t.isEof = false := by
  unfold Token.isKeyword at h
  unfold Token.isEof
  split at h
  · rename_i hkind
    rw [hkind]
  · cases h

theorem advance_seq {j : Nat} (hend : ∀ t, N t → t.isEof = false) (h : ∀ t, N t → Draws I AnyToken m j (f t) Q)
    (hm : n ≤ m + 1) (hk : k ≤ j + 1) : Draws I N n k (Parse.advance >>= f) Q := by
  intro st hst hlt hnext
  cases hfirst : nth 0 st.stream with
  | ok t =>
      refine skip_seq (hend t (hnext t hfirst)) (h t (hnext t hfirst)) hm hk st hst hlt fun t' ht' => ?_
      exact Except.ok.inj (ht'.symm.trans hfirst)
  | error fault =>
      obtain ⟨stream, lastEnd⟩ := st
      cases stream with
      | cons t rest => cases hfirst
      | done t => cases hfirst
      | failed fault =>
          refine ⟨?_, nofun⟩
          rintro _ ⟨⟩
          exact hst

theorem eatPunct_seq {mark : Punct} {j : Nat} (htrue : Draws I AnyToken m j (g true) Q)
    (hfalse : Draws I (fun t => N t ∧ t.isPunct mark = false) n k (g false) Q) (hm : n ≤ m + 1) (hk : k ≤ j + 1) :
    Draws I N n k (Parse.eatPunct mark >>= g) Q := by
  unfold Parse.eatPunct
  rw [bind_assoc]
  refine atPunct fun b => ?_
  cases b with
  | false =>
      rw [if_neg Bool.false_ne_true, pure_bind]
      exact hfalse
  | true =>
      rw [if_pos rfl, bind_assoc]
      refine advance_seq (fun t ht => isEof_of_isPunct ht.2) (fun t _ => ?_) hm hk
      rwa [pure_bind]

theorem eatPunct {mark : Punct} (htrue : Draws I AnyToken n k (g true) Q)
    (hfalse : Draws I (fun t => N t ∧ t.isPunct mark = false) n k (g false) Q) : Draws I N n k (Parse.eatPunct mark >>= g) Q :=
  eatPunct_seq htrue hfalse (Nat.le_succ _) (Nat.le_succ _)

theorem eatKeyword {word : Keyword} (htrue : Draws I AnyToken n k (g true) Q) (hfalse : Draws I N n k (g false) Q) :
    Draws I N n k (Parse.eatKeyword word >>= g) Q := by
  unfold Parse.eatKeyword Parse.atKeyword
  simp only [bind_assoc, pure_bind]
  refine peek fun t ht _ => ?_
  cases hword : t.isKeyword word with
  | false =>
      rw [if_neg Bool.false_ne_true, pure_bind]
      exact hfalse.next fun _ heq => heq ▸ ht
  | true =>
      rw [if_pos rfl, bind_assoc]
      refine advance fun t _ _ => ?_
      rwa [pure_bind]

theorem unexpected : Draws I N n k (Parse.unexpected : Parser α) Q := by
  refine peek fun t _ _ => ?_
  split <;> exact fail nofun

theorem expectPunct_seq {mark : Punct} {j : Nat} (h : ∀ t, Draws I AnyToken m j (f t) Q) (hm : n ≤ m + 1) (hk : k ≤ j + 1) :
    Draws I N n k (Parse.expectPunct mark >>= f) Q := by
  unfold Parse.expectPunct
  rw [bind_assoc]
  refine atPunct fun b => ?_
  cases b with
  | false =>
      rw [if_neg Bool.false_ne_true, bind_assoc]
      exact peek fun _ _ _ => seq (Q := fun _ => False) (i := k) (j := 0) (fail nofun) nofun (Nat.le_add_right n k) (Nat.le_refl _)
  | true =>
      rw [if_pos rfl]
      exact advance_seq (fun t ht => isEof_of_isPunct ht.2) (fun t _ => h t) hm hk

/-- A mark that has to come next. -/
theorem expectPunct {mark : Punct} (h : ∀ t, Draws I AnyToken n k (f t) Q) : Draws I N n k (Parse.expectPunct mark >>= f) Q :=
  expectPunct_seq h (Nat.le_succ _) (Nat.le_succ _)

theorem expectPunct_enter {mark : Punct} (h : ∀ t, Draws I AnyToken n 0 (f t) Q) :
    Draws I N (n + 1) 1 (Parse.expectPunct mark >>= f) Q :=
  expectPunct_seq h (Nat.le_refl _) (Nat.le_refl _)

/-- The bound that a loop is given exceeds the number of tokens left. -/
theorem bound {f : Nat → Parser α} (h : ∀ m, m ≤ n → Draws I N m k (f m) Q) : Draws I N n k (Parse.bound >>= f) Q := by
  intro st hst hlt hnext
  exact h (st.stream.length + 1) hlt st hst (Nat.lt_succ_self _) hnext

theorem spanFrom {f : Span → Parser α} {start : Span} (h : ∀ span, Draws I N n k (f span) Q) :
    Draws I N n k (Parse.spanFrom start >>= f) Q :=
  look (Q := fun _ => True) (fun _ _ => .ok _) (by rintro st a st' _ ⟨⟩; exact ⟨rfl, trivial⟩) fun span _ => h span

theorem lift {x : Target β} {f : β → Parser α} (htextual : Textual x) (h : ∀ b, x = .ok b → Draws I N n k (f b) Q) :
    Draws I N n k (liftM x >>= f) Q := by
  cases x with
  | error fault =>
      refine fun _ _ _ _ => ⟨?_, nofun⟩
      rintro _ ⟨⟩
      exact htextual fault rfl
  | ok b => exact h b rfl

end Draws

/-! ## Names -/

theorem bindingName_draws : Draws I N n 1 bindingName I := by
  refine .peek fun t _ hnamed => ?_
  split
  · rename_i name hkind
    exact .skip_first (by rw [Token.isEof_eq, hkind]; rfl) (.pure (hnamed name (by rw [hkind]; rfl)))
  · rename_i hkind
    exact .skip_first (by rw [Token.isEof_eq, hkind]; rfl) (.pure (hnamed "async" (by rw [hkind]; rfl)))
  · exact .unexpected

/-- A word. One that is a name is the token it was read from, where that is known. -/
theorem propertyName_draws : Draws I N n 1 propertyName fun id =>
    ∀ t, (∀ t', N t' → t' = t) → ∀ name, t.kind = .identifier name → id = ⟨name, t.span⟩ := by
  refine .peek fun t' ht' _ => ?_
  have hword : ∀ word, t'.isEof = false → (∀ name, t'.kind = .identifier name → name = word) →
      Draws I (· = t') n 1 (advance >>= fun _ => pure ⟨word, t'.span⟩) fun id : Ident =>
        ∀ t, (∀ t', N t' → t' = t) → ∀ name, t.kind = .identifier name → id = ⟨name, t.span⟩ := by
    intro word hend hname
    refine .skip_first hend (.pure fun t hsame name hkind => ?_)
    obtain rfl := hsame t' ht'
    rw [hname name hkind]
  split
  · rename_i word hkind
    exact hword word (by rw [Token.isEof_eq, hkind]; rfl) fun name hname => by cases hkind.symm.trans hname; rfl
  · rename_i word hkind
    exact hword word.text (by rw [Token.isEof_eq, hkind]; rfl) fun name hname => by cases hkind.symm.trans hname
  · rename_i word hkind
    exact hword word (by rw [Token.isEof_eq, hkind]; rfl) fun name hname => by cases hkind.symm.trans hname
  · exact .unexpected

theorem semicolon_draws : Draws I N n 0 semicolon fun _ => True := by
  refine .eatPunct (.pure trivial) (.peek fun t _ _ => ?_)
  split
  · exact .pure trivial
  · exact .unexpected

/-! ## Things with commas between them -/

variable {item : Parser α} {P : α → Prop}

theorem separated_draws {close : Punct} {fuel : Nat} (hitem : Draws I AnyToken n 1 item P) (hn : n ≤ fuel) :
    Draws I N n 0 (separated close item fuel) fun xs => ∀ x ∈ xs, P x := by
  induction fuel generalizing N n with
  | zero =>
      obtain rfl : n = 0 := Nat.le_zero.1 hn
      exact .zero
  | succ fuel ih =>
      refine .atPunct fun b => ?_
      cases b with
      | true => exact .pure nofun
      | false =>
          cases n with
          | zero => exact .zero
          | succ n =>
              refine Draws.lax (.enter hitem.any fun x hx => .eatPunct ?_ (.pure ?_))
              · refine .bind (ih (hitem.le (Nat.le_succ n)) (by omega)) fun xs hxs => .pure ?_
                exact List.forall_mem_cons.2 ⟨hx, hxs⟩
              · exact List.forall_mem_cons.2 ⟨hx, nofun⟩

theorem separatedWithHoles_draws {close : Punct} {hole : α} {fuel : Nat} (hhole : P hole)
    (hitem : Draws I AnyToken n 1 item P) (hn : n ≤ fuel) :
    Draws I N n 0 (separatedWithHoles close hole item fuel) fun xs => ∀ x ∈ xs, P x := by
  induction fuel generalizing N n with
  | zero =>
      obtain rfl : n = 0 := Nat.le_zero.1 hn
      exact .zero
  | succ fuel ih =>
      refine .atPunct fun b => ?_
      cases b with
      | true => exact .pure nofun
      | false =>
          cases n with
          | zero => exact .zero
          | succ n =>
              have hmore : ∀ x, P x → Draws I AnyToken n 0 (separatedWithHoles close hole item fuel >>= fun xs =>
                  pure (x :: xs)) fun xs => ∀ x ∈ xs, P x := fun x hx =>
                .bind (ih (hitem.le (Nat.le_succ n)) (by omega)) fun xs hxs => .pure (List.forall_mem_cons.2 ⟨hx, hxs⟩)
              refine .eatPunct_seq (hmore hole hhole) ?_ (Nat.le_refl _) (Nat.zero_le _)
              refine Draws.lax (.enter hitem.any fun x hx => .eatPunct (hmore x hx) (.pure ?_))
              exact List.forall_mem_cons.2 ⟨hx, nofun⟩

end Parse
end FieldScript
