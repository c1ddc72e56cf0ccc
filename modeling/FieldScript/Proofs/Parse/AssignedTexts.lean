import FieldScript.Proofs.Parse.Sound
import FieldScript.Proofs.Parse.TwoReadings

/-!
# Texts of assignments

A text that is a target, an equals sign and the text of an expression make an assignment to that target, whichever of the
two readings the target has.

* `Fresh`: what is read from a place on does not depend on where the token in front of it ended.
* `Extends`: a text on its own, and the same text with more behind it. `Extends.bindingTarget` reads a target there that
  ends with a bracket or a brace; the scan goes on at the same depth of braces behind it.
* `sequence_iff`: an expression is a row of expressions with commas between them, and only the first one is assigned.
* `Source.assigned_row`, `Source.assigned_expr`: the target and the value side by side.
-/

namespace FieldScript

open Text
open Token (Alongside Blunt Cursor Kind Moves Skipped Stream scanToken scanToken_alongside scanToken_depths scanToken_length_lt
  scanToken_stop skipTrivia)

@[simp] theorem Token.moved_zero (t : Token) : t.moved 0 = t := rfl

/-- Patterns with something between brackets or braces. -/
def Pattern.isCompound : Pattern → Bool
  | .array _ _ | .object _ _ => true
  | _ => false

namespace Parse

variable {α : Type} {text s : List Char} {st st₂ st' : State} {t : Token} {n : Nat}

/-! ## In front of an expression -/

section Fresh

variable {β : Type} {g : Grammar} {x : Parser α} {f : α → Parser β}

/-- Parsers whose results do not tell where the token in front of them ended. -/
def Fresh (p : Parser α) : Prop :=
  ∀ t rest l l' r, p ⟨.cons t rest, l⟩ = .ok r → p ⟨.cons t rest, l'⟩ = .ok r

namespace Fresh

theorem bind (hx : Fresh x) : Fresh (x >>= f) := by
  rintro t rest l l' ⟨b, st'⟩ h
  obtain ⟨a, mid, ha, hf⟩ := exists_of_bind h
  exact (bind_run (hx t rest l l' _ ha)).trans hf

theorem advance : Fresh advance := fun _ _ _ _ _ h => h

theorem peek {f : Token → Parser α} (h : ∀ t, Fresh (f t)) : Fresh (peek >>= f) :=
  fun t rest l l' r hrun => h t t rest l l' r hrun

theorem unexpected : Fresh (unexpected : Parser α) := fun _ _ _ _ _ h => absurd h unexpected_run

theorem peekNth {i : Nat} {f : Token → Parser α} (h : ∀ t, Fresh (f t)) : Fresh (peekNth i >>= f) := by
  rintro t rest l l' ⟨b, st'⟩ hrun
  obtain ⟨t', mid, hpeek, hf⟩ := exists_of_bind hrun
  obtain ⟨ht', rfl⟩ := Matches.nth_of_peekNth hpeek
  have hpeek' : Parse.peekNth i ⟨.cons t rest, l'⟩ = .ok (t', ⟨.cons t rest, l'⟩) := Matches.peekNth_eq ht'
  exact (bind_run hpeek').trans (h t' t rest l l' _ hf)

theorem eatPunct {mark : Punct} {f : Bool → Parser α} (h : Fresh (f false)) : Fresh (eatPunct mark >>= f) := by
  rintro t rest l l' ⟨b, st'⟩ hrun
  obtain ⟨b, mid, heat, hf⟩ := exists_of_bind hrun
  obtain ⟨t', ht', hmark, hadvance⟩ := eatPunct_cases heat
  cases ht'
  cases b with
  | false =>
      obtain rfl : mid = ⟨.cons t rest, l⟩ := hadvance
      exact (bind_run (eatPunct_not_run rfl hmark)).trans (h t rest l l' _ hf)
  | true =>
      cases hadvance
      have heat' : Parse.eatPunct mark ⟨.cons t rest, l'⟩ = .ok (true, ⟨rest, t.span.stop⟩) := eatPunct_run rfl hmark
      exact (bind_run heat').trans hf

end Fresh

theorem bindingName_fresh : Fresh bindingName := by
  refine .peek fun t => ?_
  split
  · exact Fresh.advance.bind
  · exact Fresh.advance.bind
  · exact .unexpected

theorem primary_fresh : Fresh (primary g) := by
  refine .peek fun t => ?_
  dsimp only
  split
  all_goals first
    | exact Fresh.advance.bind
    | exact Fresh.advance.bind.bind
    | exact .unexpected

theorem conditional_fresh : Fresh (conditional g) := by
  have hunary : Fresh (unary g) := by
    refine .peek fun t => ?_
    split
    · exact Fresh.advance.bind
    · split
      · exact Fresh.advance.bind
      · split
        · exact Fresh.advance.bind
        · exact primary_fresh.bind
  exact hunary.bind.bind

theorem arrow_fresh : Fresh (arrow g) := by
  have hrest : ∀ start isAsync, Fresh (arrowRest g start isAsync) :=
    fun start isAsync => .eatPunct bindingName_fresh.bind
  refine .peek fun start => ?_
  by_cases hword : start.isKeyword .asyncWord = true
  · rw [if_pos hword]
    refine .peekNth fun next => ?_
    by_cases harrow : next.isPunct .arrow = true
    · rw [if_pos harrow]
      exact hrest start false
    · rw [if_neg harrow]
      exact Fresh.advance.bind
  · rw [if_neg hword]
    exact hrest start false

theorem assignment_fresh : Fresh (assignment g) := by
  rintro t rest l l' r hrun
  change (liftM (arrowAhead (.cons t rest)) >>= fun b =>
    if b = true then arrow g else conditional g >>= assigned g : Parser Expr) ⟨.cons t rest, l⟩ = _ at hrun
  show (liftM (arrowAhead (.cons t rest)) >>= fun b =>
    if b = true then arrow g else conditional g >>= assigned g : Parser Expr) ⟨.cons t rest, l'⟩ = _
  cases hahead : arrowAhead (.cons t rest) with
  | error fault =>
      rw [hahead] at hrun
      cases hrun
  | ok b =>
      rw [hahead] at hrun
      cases b with
      | true => exact arrow_fresh t rest l l' r hrun
      | false => exact conditional_fresh.bind t rest l l' r hrun

end Fresh

/-! ## A text with more behind it -/

/-- States in a text and in the same text with more behind it, at the same place and outside of all templates. -/
def Extends (text s : List Char) (st st₂ : State) : Prop :=
  ∃ w c m m₂, Moves ⟨text, 0⟩ w c ∧ st = ⟨.scan m [] c, c.offset⟩ ∧
    st₂ = ⟨.scan m₂ [] ⟨c.rest ++ s, c.offset⟩, c.offset⟩ ∧ (c.rest ++ s).length < m₂

/-- The next token, in the text and in the longer one. -/
theorem exists_scan {m : Nat} {c : Cursor} (hs : Blunt s) (ht : nth 0 (.scan m [] c) = .ok t) (hend : t.isEof = false) :
    ∃ w k D next, Moves c w next ∧ Stream.scan m [] c = .cons t (.scan k D next) ∧ D = t.kind.depths [] ∧
      t.span.stop = next.offset ∧ ∀ m₂, (c.rest ++ s).length < m₂ → ∃ k₂, Stream.scan m₂ [] ⟨c.rest ++ s, c.offset⟩ =
        .cons t (.scan k₂ D ⟨next.rest ++ s, next.offset⟩) ∧ (next.rest ++ s).length < k₂ := by
  cases m with
  | zero => cases ht
  | succ m =>
      cases htoken : scanToken [] c with
      | error fault =>
          rw [Stream.scan, htoken] at ht
          cases ht
      | ok found =>
          obtain ⟨t', D, next⟩ := found
          obtain rfl : t' = t := by
            rw [Stream.scan, htoken] at ht
            cases hend' : t'.isEof <;> simp only [hend'] at ht <;> cases ht <;> rfl
          obtain ⟨front, hfront, hagain⟩ := scanToken_alongside htoken hend
          have htoken₂ := hagain 0 (next.rest ++ s) (.extend hs _)
          rw [← List.append_assoc, ← hfront.rest, Token.moved_zero, Nat.add_zero, Nat.add_zero] at htoken₂
          refine ⟨front, m, D, next, hfront, Stream.scan_succ htoken hend m, scanToken_depths htoken, scanToken_stop htoken,
            fun m₂ hm₂ => ?_⟩
          obtain ⟨m₂, rfl⟩ : ∃ k, m₂ = k + 1 := ⟨m₂ - 1, by omega⟩
          have hlt := scanToken_length_lt htoken₂ hend
          exact ⟨m₂, Stream.scan_succ htoken₂ hend m₂, Nat.lt_of_lt_of_le hlt (Nat.le_of_lt_succ hm₂)⟩

theorem Extends.ended (h : Extends text s st st₂) : st.stream.Ended ∧ st₂.stream.Ended := by
  obtain ⟨u, c, m, m₂, -, rfl, rfl, -⟩ := h
  exact ⟨(Stream.scan_sound _ _ _).ended, (Stream.scan_sound _ _ _).ended⟩

theorem Extends.head (hs : Blunt s) (h : Extends text s st st₂) (ht : nth 0 st.stream = .ok t) (hend : t.isEof = false) :
    nth 0 st₂.stream = .ok t := by
  obtain ⟨u, c, m, m₂, hu, rfl, rfl, hm₂⟩ := h
  obtain ⟨_, _, _, _, -, -, -, -, hagain⟩ := exists_scan hs ht hend
  obtain ⟨k₂, hscan₂, -⟩ := hagain m₂ hm₂
  rw [hscan₂]
  rfl

/-- A mark is consumed alike. -/
theorem Extends.step {mark : Punct} (hs : Blunt s) (h : Extends text s st st₂) (hadvance : advance st = .ok (t, st'))
    (hkind : t.kind = .punct mark) : ∃ st₂', advance st₂ = .ok (t, st₂') ∧ Extends text s st' st₂' := by
  obtain ⟨u, c, m, m₂, hu, rfl, rfl, hm₂⟩ := h
  have hend : t.isEof = false := Matches.isEof_of_kind_eq hkind nofun
  obtain ⟨w, k, D, next, hw, hscan, hD, hstop, hagain⟩ := exists_scan hs (nth_of_advance hadvance) hend
  obtain rfl : D = [] := by
    rw [hD, hkind]
    rfl
  obtain ⟨k₂, hscan₂, hk₂⟩ := hagain m₂ hm₂
  have hst' : st' = ⟨.scan k [] next, t.span.stop⟩ := by
    rw [hscan] at hadvance
    cases hadvance
    rfl
  refine ⟨⟨.scan k₂ [] ⟨next.rest ++ s, next.offset⟩, t.span.stop⟩, by rw [hscan₂]; rfl, u ++ w, next, k, k₂, hu.trans hw, ?_, ?_, hk₂⟩
  · rw [hst', hstop]
  · rw [hstop]

/-- A parser that leaves no bracket open reads the same in front of a mark that closes more than was opened. -/
theorem Extends.run {mv : α → α} {p p₂ : Parser α} {a : α} (hs : Blunt s) (h : Extends text s st st₂)
    (hp : Matches 0 n 0 AnyStream [] [] mv p p₂) (hp₂ : Matches 0 n 0 AnyStream [] [] mv p₂ p₂) (hmv : ∀ a, mv a = a)
    (hlt : st.stream.length < n) (hlt₂ : st₂.stream.length < n) (hrun : p st = .ok (a, st'))
    (ht : nth 0 st'.stream = .ok t) (hend : t.isEof = false) (hclose : t.kind.nest [] = none) :
    ∃ st₂', p₂ st₂ = .ok (a, st₂') ∧ Extends text s st' st₂' := by
  obtain ⟨u, c, m, m₂, hu, rfl, rfl, hm₂⟩ := h
  obtain ⟨-, -, -, hcrosses, -, -⟩ := hp _ _ ⟨twin_of_ended (Stream.scan_sound m [] c).ended [], rfl⟩ hlt trivial a st' hrun
  obtain ⟨w, c', k, hw, rfl, -, htwin⟩ := twin_of_crosses hcrosses rfl rfl
  obtain ⟨_, j, D, next, -, hscan, -, -, hagain⟩ := exists_scan hs ht hend
  have hbehind : ∀ m, (c'.rest ++ s).length < m → Twin 0 [] (.scan k [] c') (.scan m [] ⟨c'.rest ++ s, c'.offset + 0⟩) := by
    intro m hm
    obtain ⟨j₂, hscan₂, -⟩ := hagain m hm
    rw [hscan, Nat.add_zero, hscan₂]
    exact ⟨_, rfl, fun o' ho' => by rw [hclose] at ho'; cases ho'⟩
  have htext : w ++ (c'.rest ++ s) = c.rest ++ s := by rw [hw.rest, List.append_assoc]
  have htwin₂ := htwin 0 (c'.rest ++ s) (.extend hs _) hbehind m₂ (by rw [htext]; exact hm₂)
  rw [htext] at htwin₂
  obtain ⟨st₂', hrun₂, habreast, -, -, -⟩ :=
    hp _ ⟨.scan m₂ [] ⟨c.rest ++ s, c.offset⟩, c.offset⟩ ⟨htwin₂, rfl⟩ hlt₂ trivial a _ hrun
  rw [hmv] at hrun₂
  -- where the run on the longer text has come is known from the place
  obtain ⟨-, -, -, hcrosses₂, -, -⟩ := hp₂ _ _ ⟨twin_of_ended (Stream.scan_sound m₂ [] _).ended [], rfl⟩ hlt₂ trivial a st₂' hrun₂
  obtain ⟨w₂, c₂, k₂, hw₂, rfl, hk₂, -⟩ := twin_of_crosses hcrosses₂ rfl rfl
  have hoffset : c₂.offset = c'.offset := habreast.lastEnd
  have hrest : c₂.rest = c'.rest ++ s := by
    refine rest_eq_of_byteLength (hw₂.rest.symm.trans htext.symm) ?_
    have h₁ : c'.offset = c.offset + byteLength w := hw.offset
    have h₂ : c₂.offset = c.offset + byteLength w₂ := hw₂.offset
    omega
  refine ⟨_, hrun₂, u ++ w, c', k, k₂, hu.trans hw, rfl, ?_, ?_⟩
  · rw [← hrest, ← hoffset]
  · rw [← hrest]
    exact hk₂ hm₂

/-- Something between two marks is read alike. -/
theorem Extends.enclosed {mv : α → α} {X X₂ : Nat → Parser α} {p : Pattern} {mark close : Punct}
    (mk : α → Span → Pattern) (hs : Blunt s) (h : Extends text s st st₂) (hX : Matches 0 n 0 AnyStream [] [] mv (bound >>= X) (bound >>= X₂))
    (hX₂ : Matches 0 n 0 AnyStream [] [] mv (bound >>= X₂) (bound >>= X₂)) (hmv : ∀ a, mv a = a)
    (hlt : st.stream.length ≤ n) (hlt₂ : st₂.stream.length ≤ n) (ht : nth 0 st.stream = .ok t)
    (hkind : t.kind = .punct mark) (hclose : (Kind.punct close).nest [] = none)
    (hrun : (advance >>= fun _ => bound >>= fun n => X n >>= fun a => expectPunct close >>= fun c =>
      pure (mk a c.span) : Parser Pattern) st = .ok (p, st')) :
    ∃ st₂', (advance >>= fun _ => bound >>= fun n => X₂ n >>= fun a => expectPunct close >>= fun c =>
      pure (mk a c.span) : Parser Pattern) st₂ = .ok (p, st₂') ∧ Extends text s st' st₂' := by
  obtain ⟨t', inner, hadvance, hbound⟩ := exists_of_bind hrun
  obtain ⟨b, inner', ⟨⟩, hinner⟩ := exists_of_bind hbound
  obtain ⟨a, last, hlist, hexpect⟩ := exists_of_bind hinner
  obtain ⟨c, behind, hexpect, hresult⟩ := exists_of_bind hexpect
  cases hresult
  obtain rfl : t' = t := Except.ok.inj ((nth_of_advance hadvance).symm.trans ht)
  obtain ⟨⟨t₁, ht₁, hmark⟩, hadvance₁⟩ := stops_of_expectPunct hexpect
  obtain rfl : c = t₁ := Except.ok.inj ((nth_of_advance hadvance₁).symm.trans ht₁)
  have hkind₁ := Kind.eq_of_isMark hmark
  obtain ⟨inner₂, hadvance₂, hextends⟩ := h.step hs hadvance hkind
  obtain ⟨-, hcount⟩ := ended_of_open h.ended.1 ht hkind hadvance
  obtain ⟨-, hcount₂⟩ := ended_of_open h.ended.2 (nth_of_advance hadvance₂) hkind hadvance₂
  obtain ⟨last₂, hlist₂, hextends₂⟩ := hextends.run hs hX hX₂ hmv (by omega) (by omega) ((bind_run rfl).trans hlist) ht₁
    (Matches.isEof_of_kind_eq hkind₁ nofun) (by rw [hkind₁, hclose])
  obtain ⟨st₂', hadvance₃, hextends₃⟩ := hextends₂.step hs hadvance₁ hkind₁
  refine ⟨st₂', ?_, hextends₃⟩
  obtain ⟨b₂, mid₂, ⟨⟩, hlist₂⟩ := exists_of_bind hlist₂
  refine (bind_run hadvance₂).trans ((bind_run rfl).trans ((bind_run hlist₂).trans ?_))
  exact (bind_run (expectPunct_run hadvance₃ hkind₁)).trans rfl

/-- An array or object pattern is read in the same way from a text with more behind it. -/
theorem Extends.bindingTarget {k j : Nat} {p : Pattern} (hs : Blunt s) (h : Extends text s st st₂)
    (hk : st.stream.length ≤ j) (hk₂ : st₂.stream.length ≤ j) (hp : p.isCompound = true)
    (hrun : bindingTarget (grammar k) st = .ok (p, st')) :
    ∃ st₂', Parse.bindingTarget (grammar j) st₂ = .ok (p, st₂') ∧ Extends text s st' st₂' := by
  obtain ⟨t, mid, hpeek, hrest⟩ := exists_of_bind hrun
  obtain ⟨ht, rfl⟩ := Matches.nth_of_peekNth (i := 0) hpeek
  obtain ⟨x, hbranch, hx⟩ := exists_branch hrest
  split at hbranch <;> subst hbranch
  · rename_i hkind
    have hlist : ∀ i, Matches 0 j 0 AnyStream [] [] (List.map (Pattern.moved 0))
        (bound >>= fun n => separatedWithHoles .closeBracket .hole (bindingOrRest (grammar i)) n)
        (bound >>= fun n => separatedWithHoles .closeBracket .hole (bindingOrRest (grammar j)) n) := by
      refine fun i => .bound fun l m hm => separatedWithHoles_matches rfl (bindingOrRest_matches ?_) (Nat.le_refl m)
      exact (grammar_matches 0 i j).le hm
    have ht₂ := h.head hs ht (Matches.isEof_of_kind_eq hkind nofun)
    obtain ⟨st₂', hrun₂, hextends⟩ := h.enclosed (fun ps span => .array ps (t.span.merge span)) hs (hlist k)
      (hlist j) (List.map_id'' Pattern.moved_zero) hk hk₂ ht hkind rfl hx
    refine ⟨st₂', (bind_run (peek_run ht₂)).trans ?_, hextends⟩
    rw [hkind]
    exact hrun₂
  · rename_i hkind
    have hlist : ∀ i, Matches 0 j 0 AnyStream [] [] (List.map (PatternProp.moved 0))
        (bound >>= fun n => separated .closeBrace (patternProp (grammar i)) n)
        (bound >>= fun n => separated .closeBrace (patternProp (grammar j)) n) := by
      refine fun i => .bound fun l m hm => separated_matches (patternProp_matches ?_) (Nat.le_refl m)
      exact (grammar_matches 0 i j).le hm
    have ht₂ := h.head hs ht (Matches.isEof_of_kind_eq hkind nofun)
    obtain ⟨st₂', hrun₂, hextends⟩ := h.enclosed (fun qs span => .object qs (t.span.merge span)) hs (hlist k)
      (hlist j) (List.map_id'' PatternProp.moved_zero) hk hk₂ ht hkind rfl hx
    refine ⟨st₂', (bind_run (peek_run ht₂)).trans ?_, hextends⟩
    rw [hkind]
    exact hrun₂
  · obtain ⟨id, mid', -, hresult⟩ := exists_of_bind hx
    cases hresult
    cases hp


/-! ## Behind the target -/

/-- What stands between the target and the value of an assignment. -/
def equals : List Char := " = ".toList

theorem blunt_equals (v : List Char) : Blunt (equals ++ v) := Token.blunt_cons rfl

/-- A blank in front of a token does not matter. -/
theorem scan_blank {m o : Nat} {v : List Char} (hm : 0 < m) :
    Stream.scan m [] ⟨' ' :: v, o⟩ = Stream.scan m [] ⟨v, o + 1⟩ := by
  obtain ⟨m, rfl⟩ : ∃ k, m = k + 1 := ⟨m - 1, by omega⟩
  have htoken : scanToken [] ⟨' ' :: v, o⟩ = scanToken [] ⟨v, o + 1⟩ := by
    have hskip : skipTrivia .code o false (' ' :: v) = skipTrivia .code (o + 1) false v := rfl
    simp only [scanToken, hskip]
  rw [Stream.scan, Stream.scan, htoken]

/-- Behind what is skipped there is the equals sign, and behind that the text of the value. -/
theorem scan_equals {w v : List Char} (hw : Skipped w) {m o : Nat} (hm : (w ++ (equals ++ v)).length < m) :
    ∃ t k, Stream.scan m [] ⟨w ++ (equals ++ v), o⟩ = .cons t (.scan k [] ⟨v, o + byteLength w + 3⟩) ∧
      t.kind = .punct .assign ∧ v.length < k := by
  obtain ⟨newline, hskip⟩ := hw o false (equals ++ v)
  have hscans : (Token.Lexeme.mark .assign).Scans [] [] (' ' :: v) :=
    Token.Lexeme.mark_scans rfl (fun h => by cases h) (fun h => by cases h) fun h => by cases h
  have htrivia : skipTrivia .code o false (w ++ (equals ++ v)) = .ok (newline, ⟨'=' :: ' ' :: v, o + byteLength w + 1⟩) :=
    hskip.trans (hscans.skip (o + byteLength w + 1) newline)
  have hkind : Token.scanKind [] ⟨'=' :: ' ' :: v, o + byteLength w + 1⟩ =
      .ok (.punct .assign, [], ⟨' ' :: v, o + byteLength w + 2⟩) := hscans.kind _
  have hlength : (w ++ (equals ++ v)).length = w.length + (v.length + 3) := by simp [equals]
  obtain ⟨m, rfl⟩ : ∃ k, m = k + 1 := ⟨m - 1, by omega⟩
  have htoken : ∃ t, scanToken [] ⟨w ++ (equals ++ v), o⟩ = .ok (t, [], ⟨' ' :: v, o + byteLength w + 2⟩) ∧
      t.kind = .punct .assign := by
    simp only [scanToken, htrivia, hkind]
    exact ⟨_, rfl, rfl⟩
  obtain ⟨t, htoken, hmark⟩ := htoken
  refine ⟨t, m, ?_, hmark, by omega⟩
  rw [Stream.scan_succ htoken (Matches.isEof_of_kind_eq hmark fun h => by cases h), scan_blank (by omega)]

/-! ## Rows of expressions -/

/-- Expressions with commas between them as one. -/
def rowOf (e : Expr) : List Expr → Expr
  | [] => e
  | more => .sequence (e :: more) (e.span.merge (more.getLastD e).span)

theorem rowOf_of_ne_nil {e : Expr} {more : List Expr} (h : more ≠ []) :
    rowOf e more = .sequence (e :: more) (e.span.merge (more.getLastD e).span) := by
  cases more with
  | nil => exact absurd rfl h
  | cons e' more => rfl

theorem moreAssignments_cases {g : Grammar} {k : Nat} {more : List Expr}
    (h : moreAssignments g (k + 1) st = .ok (more, st')) : ∃ t, nth 0 st.stream = .ok t ∧
      (t.isPunct .comma = false ∧ more = [] ∧ st' = st ∨ t.isPunct .comma = true ∧ more ≠ []) := by
  obtain ⟨b, mid, heat, hrest⟩ := exists_of_bind h
  obtain ⟨t, ht, hcomma, hadvance⟩ := eatPunct_cases heat
  refine ⟨t, ht, ?_⟩
  cases b with
  | false =>
      cases hrest
      exact .inl ⟨hcomma, rfl, hadvance⟩
  | true =>
      obtain ⟨e, mid', -, hrest⟩ := exists_of_bind hrest
      obtain ⟨es, last, -, hresult⟩ := exists_of_bind hrest
      cases hresult
      exact .inr ⟨hcomma, List.cons_ne_nil e es⟩

/-- An expression is a row of assignments, of which the first one is given. -/
theorem sequence_iff {g : Grammar} {first : Parser Expr} {e : Expr} :
    sequence g first st = .ok (e, st') ↔ ∃ a mid more, first st = .ok (a, mid) ∧
      moreAssignments g (mid.stream.length + 1) mid = .ok (more, st') ∧ e = rowOf a more := by
  constructor
  · intro h
    obtain ⟨a, mid, ha, hrest⟩ := exists_of_bind h
    obtain ⟨b, mid', hat, hrest⟩ := exists_of_bind hrest
    obtain ⟨rfl, t, ht, hcomma⟩ := head_of_atPunct hat
    cases b with
    | false =>
        cases hrest
        exact ⟨e, st', [], ha, bind_run (eatPunct_not_run ht hcomma), rfl⟩
    | true =>
        obtain ⟨k, mid'', ⟨⟩, hrest⟩ := exists_of_bind hrest
        obtain ⟨more, last, hmore, hresult⟩ := exists_of_bind hrest
        cases hresult
        obtain ⟨t', ht', ⟨hfalse, -⟩ | ⟨-, hne⟩⟩ := moreAssignments_cases hmore
        · obtain rfl : t' = t := Except.ok.inj (ht'.symm.trans ht)
          rw [hcomma] at hfalse
          cases hfalse
        · exact ⟨a, mid', more, ha, hmore, (rowOf_of_ne_nil hne).symm⟩
  · rintro ⟨a, mid, more, ha, hmore, rfl⟩
    obtain ⟨t, ht, hcases⟩ := moreAssignments_cases hmore
    refine (bind_run ha).trans ((bind_run (atPunct_run ht)).trans ?_)
    rcases hcases with ⟨hcomma, rfl, rfl⟩ | ⟨hcomma, hne⟩
    · rw [hcomma]
      rfl
    · rw [hcomma, rowOf_of_ne_nil hne]
      exact (bind_run rfl).trans (bind_run hmore)

end Parse

namespace Source

open Parse (rowOf)

/-- A source that is a target, with nothing behind it but what is skipped in front of every text. -/
def IsTarget (source : Source) (p : Pattern) : Prop :=
  ∃ depth st front behind, Parse.bindingTarget (Parse.grammar depth) ⟨.ofSource source 0, 0⟩ = .ok (p, st) ∧
    source.chars = front ++ behind ∧ st.lastEnd = byteLength front ∧ Skipped behind

/-- A source that is a row of expressions with commas between them. -/
def IsRow (source : Source) (first : Expr) (more : List Expr) : Prop :=
  ∃ mid st t, Parse.assignment (Parse.grammar ((Stream.ofSource source 0).length + 1)) ⟨.ofSource source 0, 0⟩ =
      .ok (first, mid) ∧
    Parse.moreAssignments (Parse.grammar ((Stream.ofSource source 0).length + 1)) (mid.stream.length + 1) mid =
      .ok (more, st) ∧ Parse.nth 0 st.stream = .ok t ∧ t.isEof = true

/-- A source that is an expression is one row of expressions. -/
theorem expr_iff {source : Source} {e : Expr} :
    source.expr = .ok e ↔ ∃ first more, source.IsRow first more ∧ e = rowOf first more := by
  rw [Parse.expr_iff_run]
  constructor
  · rintro ⟨state, t, hrun, ht, hend⟩
    obtain ⟨first, mid, more, hfirst, hmore, rfl⟩ := Parse.sequence_iff.1 hrun
    exact ⟨first, more, ⟨mid, state, t, hfirst, hmore, ht, hend⟩, rfl⟩
  · rintro ⟨first, more, ⟨mid, state, t, hfirst, hmore, ht, hend⟩, rfl⟩
    exact ⟨state, t, Parse.sequence_iff.2 ⟨first, mid, more, hfirst, hmore, rfl⟩, ht, hend⟩

/-- The text of an assignment. -/
def assigned (target value : Source) : Source := ⟨target.chars ++ (Parse.equals ++ value.chars)⟩

/-- In the text of an assignment the target is read too, and the value comes behind the token that follows. -/
theorem IsTarget.read {target : Source} {p : Pattern} (h : target.IsTarget p) (hcompound : p.isCompound = true)
    (value : Source) : ∃ depth st t k, Parse.bindingTarget (Parse.grammar depth) ⟨.ofSource (target.assigned value) 0, 0⟩ =
      .ok (p, st) ∧ t.isPunct .assign = true ∧ value.chars.length < k ∧
        Parse.advance st = .ok (t, ⟨.scan k [] ⟨value.chars, target.size + 3⟩, t.span.stop⟩) := by
  obtain ⟨depth, st, front, behind, hrun, hchars, hlast, hskip⟩ := h
  have hstart : Parse.Extends target.chars (Parse.equals ++ value.chars) ⟨.ofSource target 0, 0⟩
      ⟨.ofSource (target.assigned value) 0, 0⟩ :=
    ⟨[], ⟨target.chars, 0⟩, target.chars.length + 1, (target.assigned value).chars.length + 1, .refl _,
      by rw [Stream.ofSource_zero], by rw [Stream.ofSource_zero]; rfl, Nat.lt_succ_self _⟩
  obtain ⟨st₂, hrun₂, u, c, m, m₂, hu, rfl, rfl, hm₂⟩ := hstart.bindingTarget (Parse.blunt_equals _)
    (j := (Stream.ofSource target 0).length + (Stream.ofSource (target.assigned value) 0).length)
    (Nat.le_add_right _ _) (Nat.le_add_left _ _) hcompound hrun
  have hoffset : c.offset = byteLength u := hu.offset.trans (Nat.zero_add _)
  have hlast : c.offset = byteLength front := hlast
  have htext : target.chars = u ++ c.rest := hu.rest
  obtain rfl : c.rest = behind := rest_eq_of_byteLength (htext.symm.trans hchars) (by omega)
  obtain ⟨t, k, hscan, hkind, hk⟩ := Parse.scan_equals hskip (o := c.offset) hm₂
  have hplace : c.offset + byteLength c.rest + 3 = target.size + 3 := by
    rw [Source.size, htext, byteLength_append, hoffset]
  refine ⟨_, _, t, k, hrun₂, ?_, hk, ?_⟩
  · rw [Token.isPunct_eq, hkind, Kind.isMark_punct, beq_self_eq_true]
  · rw [← hplace, hscan]
    rfl

/-- A row is read in the same way wherever its text stands, at every depth that suffices. -/
theorem IsRow.read {value : Source} {first : Expr} {more : List Expr} (h : value.IsRow first more) {d k n : Nat}
    (hk : value.chars.length < k) (hn : (Stream.scan k [] ⟨value.chars, d⟩).length < n) (l : Nat) :
    ∃ mid st t, (Parse.grammar n).assignment ⟨.scan k [] ⟨value.chars, d⟩, l⟩ = .ok (first.moved d, mid) ∧
      Parse.moreAssignments (Parse.grammar n) (mid.stream.length + 1) mid = .ok (more.map (Expr.moved d), st) ∧
      Parse.nth 0 st.stream = .ok t ∧ t.isEof = true := by
  obtain ⟨mid, st, t, hfirst, hmore, ht, hend⟩ := h
  generalize (Stream.ofSource value 0).length = m at hfirst hmore
  rw [Stream.ofSource_zero] at hfirst
  have htwin : Twin d [] (.scan (value.chars.length + 1) [] ⟨value.chars, 0⟩) (.scan k [] ⟨value.chars, d⟩) := by
    have hmoved : Twin d [] (.scan (value.chars.length + 1) [] ⟨value.chars, 0⟩) (.scan k [] ⟨value.chars, 0 + d⟩) :=
      Parse.twin_of_moved (o := []) (c := ⟨value.chars, 0⟩) hk
    rwa [Nat.zero_add] at hmoved
  have hassignment : Parse.Matches d n 1 Parse.AnyStream [] [] (Expr.moved d) (Parse.grammar (m + 2)).assignment
      (Parse.grammar n).assignment := (Parse.grammar_matches d (m + 2) n).assignment []
  obtain ⟨mid₂, hfirst₂, habreast, -, hcount, hcount₂⟩ :=
    hassignment ⟨_, 0⟩ ⟨.scan k [] ⟨value.chars, d⟩, 0 + d⟩ ⟨htwin, rfl⟩ hn trivial first mid hfirst
  simp only at hcount hcount₂
  have hless : mid₂.stream.length < n := by omega
  obtain ⟨st₂, hmore₂, habreast₂, -, -, -⟩ :=
    Parse.moreAssignments_matches (N := Parse.AnyStream) (o := []) ((Parse.grammar_matches d (m + 1) n).le hless)
      (Nat.le_refl (mid₂.stream.length + 1)) mid mid₂ habreast (Nat.lt_succ_self _) trivial more st hmore
  refine ⟨mid₂, st₂, t.moved d, ?_, hmore₂, habreast₂.twin.nth_zero ht, hend⟩
  obtain ⟨n, rfl⟩ : ∃ j, n = j + 1 := ⟨n - 1, by omega⟩
  cases hscan : Stream.scan k [] ⟨value.chars, d⟩ with
  | cons t' rest =>
      rw [hscan] at hfirst₂
      exact Parse.assignment_fresh t' rest _ l _ hfirst₂
  | _ =>
      rw [hscan] at hcount₂
      simp only [Stream.length] at hcount₂
      omega

/-- In front of the equals sign the target is read as an expression, and behind it the value is read as it is alone. -/
theorem assigned_row {target value : Source} {p : Pattern} {first : Expr} {more : List Expr} (htarget : target.IsTarget p)
    (hcompound : p.isCompound = true) (hplain : p.isPlain = true) (hvalue : value.IsRow first more) :
    (target.assigned value).IsRow
      (.assign .assign p (first.moved (target.size + 3)) (p.span.merge (first.moved (target.size + 3)).span))
      (more.map (Expr.moved (target.size + 3))) := by
  obtain ⟨depth, st, t, k, hrun, hassign, hk, hadvance⟩ := htarget.read hcompound value
  have hended := (Stream.ofSource_ended (target.assigned value) 0)
  obtain ⟨hst, hless⟩ := Parse.bindingTarget_same hended hrun
  obtain ⟨-, hcount⟩ := Parse.ended_of_advance hst hadvance hassign
  obtain ⟨mid, last, tv, hfirst, hmore, htv, hend⟩ :=
    hvalue.read (d := target.size + 3) (n := (Stream.ofSource (target.assigned value) 0).length + 1) hk
      (by simp only at hless hcount; omega) t.span.stop
  refine ⟨mid, last, tv, ?_, hmore, htv, hend⟩
  exact Parse.assignment_of_default (Parse.rereads _) hended (by simp only; omega) hrun hplain
    (Parse.nth_of_advance hadvance) hassign hadvance hfirst

/-- A target, an equals sign and a value are an assignment to that target with all its parts. If the value is more than one
expression with commas between them, it is the first one that is assigned. -/
theorem assigned_expr {target value : Source} {p : Pattern} {e : Expr} (htarget : target.IsTarget p)
    (hcompound : p.isCompound = true) (hplain : p.isPlain = true) (hvalue : value.expr = .ok e) :
    ∃ first more, value.IsRow first more ∧ e = rowOf first more ∧ (target.assigned value).expr =
      .ok (rowOf
        (.assign .assign p (first.moved (target.size + 3)) (p.span.merge (first.moved (target.size + 3)).span))
        (more.map (Expr.moved (target.size + 3)))) := by
  obtain ⟨first, more, hrow, rfl⟩ := expr_iff.1 hvalue
  exact ⟨first, more, hrow, rfl, expr_iff.2 ⟨_, _, assigned_row htarget hcompound hplain hrow, rfl⟩⟩

/-- A target that is read at some depth up to an offset, behind which there is nothing that would not be skipped. -/
theorem exists_isTarget (source : Source) (depth : Nat) (front behind : List Char)
    (hread : ((Parse.bindingTarget (Parse.grammar depth) ⟨.ofSource source 0, 0⟩).toOption.any fun r =>
      r.2.lastEnd == byteLength front && r.1.isCompound && r.1.isPlain) = true)
    (hchars : source.chars = front ++ behind) (hskip : Skipped behind) :
    ∃ p, source.IsTarget p ∧ p.isCompound = true ∧ p.isPlain = true := by
  cases hrun : Parse.bindingTarget (Parse.grammar depth) ⟨.ofSource source 0, 0⟩ with
  | error fault =>
      rw [hrun] at hread
      cases hread
  | ok r =>
      obtain ⟨p, st⟩ := r
      rw [hrun] at hread
      simp only [Except.toOption, Option.any_some, Bool.and_eq_true, beq_iff_eq] at hread
      exact ⟨p, ⟨depth, st, front, behind, hrun, hchars, hread.1.1, hskip⟩, hread.1.2, hread.2⟩

theorem exists_expr (source : Source) (h : source.expr.isOk = true) : ∃ e, source.expr = .ok e := by
  cases hexpr : source.expr with
  | error fault =>
      rw [hexpr] at h
      cases h
  | ok e => exact ⟨e, rfl⟩

/-- A target with a hole, a default, an entry of one name and both kinds of rests, and a comment behind it. -/
def nestedTarget : Source := .ofString "[a, , \x7bb, c: [d = 1], ...r\x7d, ...s]/* c */"

/-- An expression and another one. -/
def twoValues : Source := .ofString "f(x), y"

theorem nestedTarget_assigned : ∃ p e, nestedTarget.IsTarget p ∧ p.isCompound = true ∧ p.isPlain = true ∧
    twoValues.expr = .ok e ∧ ∃ first more, twoValues.IsRow first more ∧ e = rowOf first more ∧
      (nestedTarget.assigned twoValues).expr = .ok (rowOf
        (.assign .assign p (first.moved (nestedTarget.size + 3))
          (p.span.merge (first.moved (nestedTarget.size + 3)).span))
        (more.map (Expr.moved (nestedTarget.size + 3)))) := by
  obtain ⟨p, htarget, hcompound, hplain⟩ := exists_isTarget nestedTarget 9
    "[a, , \x7bb, c: [d = 1], ...r\x7d, ...s]".toList "/* c */".toList (by decide +kernel) (by decide +kernel)
    Token.skipped_blockComment
  obtain ⟨e, hvalue⟩ := exists_expr twoValues (by decide +kernel)
  exact ⟨p, e, htarget, hcompound, hplain, hvalue, assigned_expr htarget hcompound hplain hvalue⟩

def isSequence : Expr → Bool
  | .sequence .. => true
  | _ => false

def isArray : Expr → Bool
  | .array .. => true
  | _ => false

theorem exists_expr_of (source : Source) {q : Expr → Bool} (h : source.expr.toOption.any q = true) :
    ∃ e, source.expr = .ok e ∧ q e = true := by
  cases hexpr : source.expr with
  | error fault =>
      rw [hexpr] at h
      cases h
  | ok e =>
      rw [hexpr] at h
      exact ⟨e, rfl, h⟩

/-- What is read is no assignment if the value is more than one expression, or if a comment that ends with its line comes
behind the target. -/
theorem unassigned_targets :
    (∃ p e es span, (Source.ofString "[a]").IsTarget p ∧ p.isCompound = true ∧ p.isPlain = true ∧
      (Source.ofString "1, 2").expr = .ok e ∧
      ((Source.ofString "[a]").assigned (Source.ofString "1, 2")).expr = .ok (.sequence es span)) ∧
    ∃ p st t e items span,
      Parse.bindingTarget (Parse.grammar 4) ⟨.ofSource (.ofString "[a] // b") 0, 0⟩ = .ok (p, st) ∧
      Parse.nth 0 st.stream = .ok t ∧ t.isEof = true ∧ p.isCompound = true ∧ p.isPlain = true ∧
      (Source.ofString "1").expr = .ok e ∧
      ((Source.ofString "[a] // b").assigned (Source.ofString "1")).expr = .ok (.array items span) := by
  constructor
  · obtain ⟨p, htarget, hcompound, hplain⟩ := exists_isTarget (.ofString "[a]") 4 "[a]".toList []
      (by decide +kernel) (by decide +kernel) Token.skipped_nil
    obtain ⟨e, hvalue⟩ := exists_expr (.ofString "1, 2") (by decide +kernel)
    obtain ⟨read, hexpr, hread⟩ := exists_expr_of ((Source.ofString "[a]").assigned (Source.ofString "1, 2"))
      (q := isSequence) (by decide +kernel)
    cases read with
    | sequence es span => exact ⟨p, e, es, span, htarget, hcompound, hplain, hvalue, hexpr⟩
    | _ => cases hread
  · have htarget : ((Parse.bindingTarget (Parse.grammar 4) ⟨.ofSource (.ofString "[a] // b") 0, 0⟩).toOption.any fun r =>
        (Parse.nth 0 r.2.stream).toOption.any Token.isEof && r.1.isCompound && r.1.isPlain) = true := by decide +kernel
    obtain ⟨e, hvalue⟩ := exists_expr (.ofString "1") (by decide +kernel)
    obtain ⟨items, span, hexpr⟩ : ∃ items span,
        ((Source.ofString "[a] // b").assigned (Source.ofString "1")).expr = .ok (.array items span) := by
      obtain ⟨read, hexpr, hread⟩ := exists_expr_of ((Source.ofString "[a] // b").assigned (Source.ofString "1"))
        (q := isArray) (by decide +kernel)
      cases read with
      | array items span => exact ⟨items, span, hexpr⟩
      | _ => cases hread
    cases hrun : Parse.bindingTarget (Parse.grammar 4) ⟨.ofSource (.ofString "[a] // b") 0, 0⟩ with
    | error fault =>
        rw [hrun] at htarget
        cases htarget
    | ok r =>
        obtain ⟨p, st⟩ := r
        rw [hrun] at htarget
        simp only [Except.toOption, Option.any_some, Bool.and_eq_true] at htarget
        obtain ⟨⟨hend, hcompound⟩, hplain⟩ := htarget
        cases ht : Parse.nth 0 st.stream with
        | error fault =>
            rw [ht] at hend
            cases hend
        | ok t =>
            rw [ht] at hend
            exact ⟨p, st, t, e, items, span, rfl, ht, hend, hcompound, hplain, hvalue, hexpr⟩

end Source
end FieldScript
