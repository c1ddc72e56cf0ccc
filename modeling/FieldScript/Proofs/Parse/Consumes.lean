import FieldScript.Proofs.Syntax.Dotted
import FieldScript.Proofs.Parse.Reads

/-!
# What a parser has consumed

A parser that succeeds has consumed tokens, and its result tells how many points were among them. There is a rule for
each way of putting parsers together. A look at the next token makes it known to what comes behind (`Consumes.peek`),
so that a token is consumed only where it is known to be no point, or counted (`Consumes.advance`).
-/

namespace FieldScript.Parse

open Token (Kind Stream IsWord)

variable {α β : Type}

/-- A stream goes on with another one behind a number of points. -/
structure Leaves (s rest : Stream) (n : Nat) : Prop where
  sound : rest.Sound
  finished : rest.Finished → s.Finished
  dots : s.dots = n + rest.dots

theorem Leaves.refl {s : Stream} (h : s.Sound) : Leaves s s 0 := ⟨h, id, (Nat.zero_add _).symm⟩

theorem Leaves.trans {s mid rest : Stream} {n m : Nat} (h : Leaves s mid n) (h' : Leaves mid rest m) :
    Leaves s rest (n + m) :=
  ⟨h'.sound, fun hrest => h.finished (h'.finished hrest), by rw [h.dots, h'.dots, Nat.add_assoc]⟩

/-- A parser whose results are as told, given the points it has consumed, where the next token is as told. -/
def Consumes (N : Token → Prop) (p : Parser α) (Q : α → Nat → Prop) : Prop :=
  ∀ st a st', st.stream.Sound → (∀ t, nth 0 st.stream = .ok t → N t) → p st = .ok (a, st') →
    ∃ n, Leaves st.stream st'.stream n ∧ Q a n

variable {N N' : Token → Prop} {Q R : α → Nat → Prop} {t : Token}

/-- No token is ruled out. -/
abbrev AnyToken : Token → Prop := fun _ => True

theorem fits_of_nth {s : Stream} (hs : s.Sound) (ht : nth 0 s = .ok t) : t.kind.Fits t.text.toList := by
  cases s with
  | cons t' rest =>
      cases ht
      exact hs.1
  | done t' =>
      cases ht
      have heof : t.isEof = true := hs
      unfold Token.isEof at heof
      split at heof
      · rename_i hkind
        rw [hkind]
        trivial
      · cases heof
  | failed fault => cases ht

theorem exists_of_bind {x : Parser α} {f : α → Parser β} {st st' : State} {b : β} (h : (x >>= f) st = .ok (b, st')) :
    ∃ a mid, x st = .ok (a, mid) ∧ f a mid = .ok (b, st') := by
  change (x st >>= fun r => f r.1 r.2) = .ok (b, st') at h
  cases hx : x st with
  | error fault =>
      rw [hx] at h
      cases h
  | ok r =>
      rw [hx] at h
      exact ⟨r.1, r.2, rfl, h⟩

theorem unexpected_run {st : State} {r : α × State} : (unexpected : Parser α) st ≠ .ok r := by
  obtain ⟨a, st'⟩ := r
  intro h
  obtain ⟨t, mid, -, hresult⟩ := exists_of_bind h
  cases hkind : t.kind <;> rw [hkind] at hresult <;> cases hresult

namespace Consumes

theorem pure {a : α} (h : Q a 0) : Consumes N (Pure.pure a) Q := by
  rintro st _ _ hsound - ⟨⟩
  exact ⟨0, .refl hsound, h⟩

theorem fail {cause : SyntaxFault.Cause} {span : Span} : Consumes N (Parse.fail cause span) Q := by
  rintro st _ _ - - ⟨⟩

theorem mono {p : Parser α} (h : Consumes N p Q) (himp : ∀ a n, Q a n → R a n) : Consumes N p R := by
  intro st a st' hsound hnext hrun
  obtain ⟨n, hleaves, ha⟩ := h st a st' hsound hnext hrun
  exact ⟨n, hleaves, himp a n ha⟩

/-- More is known of the next token. -/
theorem next {p : Parser α} (h : Consumes N p Q) (himp : ∀ t, N' t → N t) : Consumes N' p Q :=
  fun st a st' hsound hnext hrun => h st a st' hsound (fun t ht => himp t (hnext t ht)) hrun

theorem any {p : Parser α} (h : Consumes AnyToken p Q) : Consumes N p Q := h.next fun _ _ => trivial

/-- One parser behind another. -/
theorem bind {x : Parser α} {f : α → Parser β} {R : β → Nat → Prop} (hx : Consumes N x Q)
    (hf : ∀ a n, Q a n → Consumes AnyToken (f a) fun b m => R b (n + m)) : Consumes N (x >>= f) R := by
  intro st b st' hsound hnext hrun
  obtain ⟨a, mid, hx', hf'⟩ := exists_of_bind hrun
  obtain ⟨n, hleaves, ha⟩ := hx st a mid hsound hnext hx'
  obtain ⟨m, hleaves', hb⟩ := hf a n ha mid b st' hleaves.sound (fun _ _ => trivial) hf'
  exact ⟨n + m, hleaves.trans hleaves', hb⟩

theorem map {f : α → β} {p : Parser α} {R : β → Nat → Prop} (h : Consumes N p fun a n => R (f a) n) :
    Consumes N (f <$> p) R := by
  rw [map_eq_pure_bind]
  exact h.bind fun a n ha => .pure ha

/-- What looks at the state only. -/
theorem look {x : Parser α} {f : α → Parser β} {R : β → Nat → Prop} (hx : ∀ st a st', x st = .ok (a, st') → st' = st)
    (hf : ∀ a, Consumes N (f a) R) : Consumes N (x >>= f) R := by
  intro st b st' hsound hnext hrun
  obtain ⟨a, mid, hx', hf'⟩ := exists_of_bind hrun
  rw [hx st a mid hx'] at hf'
  exact hf a st b st' hsound hnext hf'

/-! ## Primitive parsers -/

variable {f : Token → Parser α} {g : Bool → Parser α}

theorem peek_eq {st st' : State} (h : Parse.peek st = .ok (t, st')) : nth 0 st.stream = .ok t ∧ st' = st := by
  change (nth 0 st.stream >>= fun t => Except.ok (t, st)) = .ok (t, st') at h
  cases ht : nth 0 st.stream with
  | error fault =>
      rw [ht] at h
      cases h
  | ok t' =>
      rw [ht] at h
      cases h
      exact ⟨rfl, rfl⟩

/-- From a look at the next token on it is known. -/
theorem peek (h : ∀ t, N t → t.kind.Fits t.text.toList → Consumes (· = t) (f t) Q) : Consumes N (Parse.peek >>= f) Q := by
  intro st a st' hsound hnext hrun
  obtain ⟨t, mid, hpeek, hrun'⟩ := exists_of_bind hrun
  obtain ⟨ht, rfl⟩ := peek_eq hpeek
  refine h t (hnext t ht) (fits_of_nth hsound ht) mid a st' hsound (fun t' ht' => ?_) hrun'
  rw [ht] at ht'
  cases ht'
  rfl

theorem peekNth {k : Nat} (h : ∀ t, Consumes N (f t) Q) : Consumes N (Parse.peekNth k >>= f) Q := by
  refine look (fun st a st' hrun => ?_) h
  change (nth k st.stream >>= fun t => Except.ok (t, st)) = .ok (a, st') at hrun
  cases hk : nth k st.stream with
  | error fault =>
      rw [hk] at hrun
      cases hrun
  | ok t =>
      rw [hk] at hrun
      cases hrun
      rfl

/-- Consumes a token. -/
theorem advance (h : ∀ t, N t → t.kind.Fits t.text.toList →
    Consumes AnyToken (f t) fun a n => Q a (t.kind.isDot.toNat + n)) : Consumes N (Parse.advance >>= f) Q := by
  intro st a st' hsound hnext hrun
  obtain ⟨t, mid, hadvance, hrun'⟩ := exists_of_bind hrun
  obtain ⟨stream, lastEnd⟩ := st
  cases stream with
  | cons t' rest =>
      cases hadvance
      obtain ⟨n, hleaves, ha⟩ := h t (hnext t rfl) hsound.1 _ a st' hsound.2.2 (fun _ _ => trivial) hrun'
      have hfirst : Leaves (.cons t rest) rest t.kind.isDot.toNat := ⟨hsound.2.2, id, rfl⟩
      exact ⟨_, hfirst.trans hleaves, ha⟩
  | done t' =>
      cases hadvance
      have hdot : t.kind.isDot = false := by
        have heof : t.isEof = true := hsound
        unfold Token.isEof at heof
        split at heof
        · rename_i hkind
          rw [hkind]
          rfl
        · cases heof
      obtain ⟨n, hleaves, ha⟩ := h t (hnext t rfl) (fits_of_nth (s := .done t) hsound rfl) _ a st' hsound
        (fun _ _ => trivial) hrun'
      rw [hdot, Bool.toNat_false, Nat.zero_add] at ha
      exact ⟨n, hleaves, ha⟩
  | failed fault => cases hadvance

/-- Consumes a token that is known to be no point. -/
theorem skip (hdot : t.kind.isDot = false) (h : Consumes AnyToken (f t) Q) : Consumes (· = t) (Parse.advance >>= f) Q := by
  refine advance fun t' ht' _ => ?_
  subst ht'
  rw [hdot]
  simpa using h

theorem atPunct {mark : Punct} (h : ∀ b, Consumes (fun t => N t ∧ t.isPunct mark = b) (g b) Q) :
    Consumes N (Parse.atPunct mark >>= g) Q := by
  unfold Parse.atPunct
  rw [bind_assoc]
  refine peek fun t ht _ => ?_
  rw [pure_bind]
  refine (h (t.isPunct mark)).next ?_
  rintro _ rfl
  exact ⟨ht, rfl⟩

theorem isDot_of_isPunct {mark : Punct} (hmark : mark ≠ .dot) (h : t.isPunct mark = true) : t.kind.isDot = false := by
  rw [Token.isPunct_eq] at h
  rw [Kind.eq_of_isMark h]
  cases mark <;> first | rfl | exact absurd rfl hmark

theorem eatPunct {mark : Punct} (hmark : mark ≠ .dot) (htrue : Consumes AnyToken (g true) Q)
    (hfalse : Consumes (fun t => N t ∧ t.isPunct mark = false) (g false) Q) : Consumes N (Parse.eatPunct mark >>= g) Q := by
  unfold Parse.eatPunct
  rw [bind_assoc]
  refine atPunct fun b => ?_
  cases b with
  | false =>
      rw [if_neg Bool.false_ne_true, pure_bind]
      exact hfalse
  | true =>
      rw [if_pos rfl, bind_assoc]
      refine advance fun t ht _ => ?_
      rw [isDot_of_isPunct hmark ht.2, pure_bind]
      simpa using htrue

/-- Consumes a mark that is known to come next. -/
theorem eatPunct_next {mark : Punct} (hmark : mark ≠ .dot) (hnext : ∀ t, N t → t.isPunct mark = true)
    (h : Consumes AnyToken (g true) Q) : Consumes N (Parse.eatPunct mark >>= g) Q := by
  unfold Parse.eatPunct Parse.atPunct
  simp only [bind_assoc, pure_bind]
  refine peek fun t ht _ => ?_
  rw [hnext t ht, if_pos rfl, bind_assoc]
  refine skip (isDot_of_isPunct hmark (hnext t ht)) ?_
  rwa [pure_bind]

theorem isDot_of_isKeyword {word : Keyword} (h : t.isKeyword word = true) : t.kind.isDot = false := by
  rw [Token.isKeyword_eq] at h
  unfold Kind.isWord at h
  split at h
  · rename_i hkind
    rw [hkind]
    rfl
  · cases h

theorem eatKeyword {word : Keyword} (htrue : Consumes AnyToken (g true) Q) (hfalse : Consumes N (g false) Q) :
    Consumes N (Parse.eatKeyword word >>= g) Q := by
  unfold Parse.eatKeyword Parse.atKeyword
  simp only [bind_assoc, pure_bind]
  refine peek fun t ht _ => ?_
  cases hword : t.isKeyword word with
  | false =>
      rw [if_neg Bool.false_ne_true, pure_bind]
      exact hfalse.next fun _ heq => heq ▸ ht
  | true =>
      rw [if_pos rfl, bind_assoc]
      refine skip (isDot_of_isKeyword hword) ?_
      rwa [pure_bind]

theorem unexpected : Consumes N (Parse.unexpected : Parser α) Q := by
  refine peek fun t _ _ => ?_
  split <;> exact fail

theorem expectPunct {mark : Punct} (hmark : mark ≠ .dot) (h : ∀ t, Consumes AnyToken (f t) Q) :
    Consumes N (Parse.expectPunct mark >>= f) Q := by
  unfold Parse.expectPunct
  rw [bind_assoc]
  refine atPunct fun b => ?_
  cases b with
  | false =>
      rw [if_neg Bool.false_ne_true, bind_assoc]
      exact peek fun _ _ _ => bind (Q := fun _ _ => False) fail nofun
  | true =>
      rw [if_pos rfl]
      refine advance fun t ht _ => ?_
      rw [isDot_of_isPunct hmark ht.2]
      simpa using h t

theorem bound {f : Nat → Parser α} (h : ∀ n, Consumes N (f n) Q) : Consumes N (Parse.bound >>= f) Q :=
  look (by rintro st a st' ⟨⟩; rfl) h

theorem spanFrom {f : Span → Parser α} {start : Span} (h : ∀ span, Consumes N (f span) Q) :
    Consumes N (Parse.spanFrom start >>= f) Q :=
  look (by rintro st a st' ⟨⟩; rfl) h

theorem exhausted : Consumes N (Parse.exhausted : Parser α) Q :=
  look (x := Parse.lastEnd) (by rintro st a st' ⟨⟩; rfl) fun _ => fail

theorem lift {x : Target β} {f : β → Parser α} (h : ∀ b, x = .ok b → Consumes N (f b) Q) :
    Consumes N (liftM x >>= f) Q := by
  cases x with
  | error fault => rintro st _ _ - - ⟨⟩
  | ok b => exact h b rfl

end Consumes

/-! ## Names -/

open Token (IsWord wordKind)

theorem isName_identifier {name : String} {text : List Char} (h : (Kind.identifier name).Fits text) : IsName name :=
  ⟨h.1, .inl h.2⟩

theorem isName_async : IsName "async" := ⟨Token.isWord_keyword .asyncWord, .inr rfl⟩

theorem bindingName_consumes : Consumes N bindingName fun id n => IsName id.name ∧ n = 0 := by
  refine .peek fun t _ hfits => ?_
  split
  · rename_i name hkind
    rw [hkind] at hfits
    exact .skip (by rw [hkind]; rfl) (.pure ⟨isName_identifier hfits, rfl⟩)
  · rename_i hkind
    exact .skip (by rw [hkind]; rfl) (.pure ⟨isName_async, rfl⟩)
  · exact .unexpected

/-- A word. One that is a name is the token it was read from. -/
theorem propertyName_consumes (hnext : ∀ t', N t' → t' = t) :
    Consumes N propertyName fun id n =>
      IsWord id.name.toList ∧ n = 0 ∧ ∀ name, t.kind = .identifier name → id.name = name ∧ wordKind name = .identifier name := by
  refine .peek fun t' ht' hfits => ?_
  obtain rfl := hnext t' ht'
  split
  · rename_i name hkind
    rw [hkind] at hfits
    refine .skip (by rw [hkind]; rfl) (.pure ⟨hfits.1, rfl, fun name' hname' => ?_⟩)
    obtain rfl := Kind.identifier.inj (hkind.symm.trans hname')
    exact ⟨rfl, hfits.2⟩
  · rename_i word hkind
    refine .skip (by rw [hkind]; rfl) (.pure ⟨Token.isWord_keyword word, rfl, fun name' hname' => ?_⟩)
    cases hkind.symm.trans hname'
  · rename_i word hkind
    rw [hkind] at hfits
    refine .skip (by rw [hkind]; rfl) (.pure ⟨hfits.1, rfl, fun name' hname' => ?_⟩)
    cases hkind.symm.trans hname'
  · exact .unexpected

theorem propertyName_word_consumes : Consumes N propertyName fun id n => IsWord id.name.toList ∧ n = 0 := by
  intro st id st' hsound hnext hrun
  obtain ⟨t, mid, hpeek, -⟩ := exists_of_bind hrun
  obtain ⟨n, hleaves, hid⟩ := propertyName_consumes (N := (· = t)) (fun _ h => h) st id st' hsound
    (fun t' ht' => Except.ok.inj (ht'.symm.trans (Consumes.peek_eq hpeek).1)) hrun
  exact ⟨n, hleaves, hid.1, hid.2.1⟩

theorem semicolon_consumes : Consumes N semicolon fun _ n => n = 0 := by
  refine .eatPunct (by decide) (.pure rfl) (.peek fun t _ _ => ?_)
  split
  · exact .pure rfl
  · exact .unexpected

/-! ## Things with commas between them -/

variable {item : Parser α} {P : α → Nat → Prop} {A : List α → Nat → Prop}

theorem separated_consumes {close : Punct} (hitem : Consumes AnyToken item P) (hnil : A [] 0)
    (hcons : ∀ x xs n m, P x n → A xs m → A (x :: xs) (n + m)) (fuel : Nat) :
    Consumes N (separated close item fuel) A := by
  induction fuel generalizing N with
  | zero => exact .exhausted
  | succ fuel ih =>
      refine .atPunct fun b => ?_
      cases b with
      | true => exact .pure hnil
      | false =>
          refine .bind hitem.any fun x n hx => .eatPunct (by decide) ?_ (.pure ?_)
          · exact .bind ih fun xs m hxs => .pure (hcons x xs n m hx hxs)
          · exact hcons x [] n 0 hx hnil

theorem separatedWithHoles_consumes {close : Punct} {hole : α} (hhole : P hole 0) (hitem : Consumes AnyToken item P)
    (hnil : A [] 0) (hcons : ∀ x xs n m, P x n → A xs m → A (x :: xs) (n + m)) (fuel : Nat) :
    Consumes N (separatedWithHoles close hole item fuel) A := by
  induction fuel generalizing N with
  | zero => exact .exhausted
  | succ fuel ih =>
      refine .atPunct fun b => ?_
      cases b with
      | true => exact .pure hnil
      | false =>
          refine .eatPunct (by decide) ?_ (.bind hitem.any fun x n hx => .eatPunct (by decide) ?_ (.pure ?_))
          · refine .bind ih fun xs m hxs => .pure ?_
            have h := hcons hole xs 0 m hhole hxs
            rwa [Nat.zero_add] at h
          · exact .bind ih fun xs m hxs => .pure (hcons x xs n m hx hxs)
          · exact hcons x [] n 0 hx hnil

end FieldScript.Parse
