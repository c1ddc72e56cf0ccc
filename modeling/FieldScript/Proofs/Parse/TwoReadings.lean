import FieldScript.Proofs.Parse.Climbing
import FieldScript.Proofs.Parse.Fenced
import FieldScript.Proofs.Parse.ReadTargets

/-!
# Two readings of a target

A target is read in two ways: as such, in declarations and parameters, and as an expression that is turned into a pattern
when the operator behind it is seen. What is read as a target in one way is read as the same target in the other one, up
to the same token, if an operator, a comma or a closing mark comes behind it. There is one kind of entry in which the two
readings differ: a name that stands for its key, its target and a default at once (`Pattern.isPlain`).

Strategy:

* A target starts no arrow function and nothing is added to it behind it, so it is enough to look at the expression
  without operators (`assignment_of_conditional`, `conditional_of_primary`).
* `Echoes`: wherever one parser of items succeeds, another one succeeds with a related item, at the same place. It goes
  over to rows of items with commas between them (`Echoes.separated`, `Echoes.separatedWithHoles`).
* `Rereads`: the statement for texts of a certain length. Elements and entries hold shorter targets
  (`bindingOrRest_echoes`, `patternProp_echoes`), and `rereads` is the induction.
-/

namespace FieldScript

mutual

/-- Whether no entry of a pattern is a name that stands for its key, its target and a default at once. -/
def Pattern.isPlain : Pattern → Bool
  | .ident _ | .member _ | .hole => true
  | .array elements _ => arePlain elements
  | .object props _ => arePlainProps props
  | .assign target _ => target.isPlain
  | .rest target => target.isPlain

/-- The same of every one of some patterns. -/
def arePlain : List Pattern → Bool
  | [] => true
  | p :: more => p.isPlain && arePlain more

/-- The same of the entries of an object pattern. -/
def arePlainProps : List PatternProp → Bool
  | [] => true
  | p :: more => p.isPlain && arePlainProps more

/-- The same of an entry of an object pattern. -/
def PatternProp.isPlain : PatternProp → Bool
  | .init _ (.assign _ _) true => false
  | .init _ value _ => value.isPlain
  | .rest target => target.isPlain

end

theorem arePlain_iff {ps : List Pattern} : arePlain ps = true ↔ ∀ p ∈ ps, p.isPlain = true := by
  induction ps with
  | nil => simp [arePlain]
  | cons p ps ih => simp [arePlain, ih]

theorem arePlainProps_iff {ps : List PatternProp} : arePlainProps ps = true ↔ ∀ p ∈ ps, p.isPlain = true := by
  induction ps with
  | nil => simp [arePlainProps]
  | cons p ps ih => simp [arePlainProps, ih]

theorem isPlain_init {k : Key} {p : Pattern} : (PatternProp.init k p false).isPlain = p.isPlain := by
  cases p <;> rfl

/-- Kinds of tokens behind which a target may end. -/
def Token.Kind.endsTarget (k : Kind) : Bool :=
  k.isMark .comma || k.isMark .closeBracket || k.isMark .closeBrace || k.isMark .assign

theorem Token.Kind.endsTarget_cases {k : Kind} (h : k.endsTarget = true) :
    k.stopsInfix = true ∧ k.isMark .question = false ∧ Parse.endsArrow k = true := by
  simp only [endsTarget, Bool.or_eq_true] at h
  rcases h with ((h | h) | h) | h <;> rw [eq_of_isMark h] <;> exact ⟨rfl, rfl, rfl⟩

namespace Parse

open Token (Kind Stream)

variable {g : Grammar} {n m : Nat} {st mid st' : State} {t : Token} {e : Expr} {p : Pattern}

/-! ## Steps of a parser -/

theorem Stops.mono {P P' : Kind → Bool} {s : Stream} (h : Stops P s) (himp : ∀ k, P k = true → P' k = true) :
    Stops P' s := by
  obtain ⟨t, ht, hkind⟩ := h
  exact ⟨t, ht, himp _ hkind⟩

theorem peek_run (ht : nth 0 st.stream = .ok t) : peek st = .ok (t, st) := Matches.peekNth_eq (i := 0) ht

theorem atPunct_run {mark : Punct} (ht : nth 0 st.stream = .ok t) : atPunct mark st = .ok (t.isPunct mark, st) :=
  bind_run (peek_run ht)

theorem eatPunct_not_run {mark : Punct} (ht : nth 0 st.stream = .ok t) (hmark : t.isPunct mark = false) :
    eatPunct mark st = .ok (false, st) := by
  refine (bind_run (atPunct_run ht)).trans ?_
  rw [hmark]
  rfl

theorem nth_of_advance (h : advance st = .ok (t, st')) : nth 0 st.stream = .ok t := by
  obtain ⟨stream, lastEnd⟩ := st
  cases stream with
  | failed fault => cases h
  | _ =>
      cases h
      rfl

theorem eatPunct_cases {mark : Punct} {b : Bool} (h : eatPunct mark st = .ok (b, st')) :
    ∃ t, nth 0 st.stream = .ok t ∧ t.isPunct mark = b ∧ if b then advance st = .ok (t, st') else st' = st := by
  obtain ⟨b', mid, hat, hrest⟩ := exists_of_bind h
  obtain ⟨rfl, t, ht, hmark⟩ := head_of_atPunct hat
  cases b' with
  | false =>
      cases hrest
      exact ⟨t, ht, hmark, rfl⟩
  | true =>
      obtain ⟨t', mid', hadvance, hresult⟩ := exists_of_bind hrest
      cases hresult
      obtain rfl : t' = t := Except.ok.inj ((nth_of_advance hadvance).symm.trans ht)
      exact ⟨t', ht, hmark, hadvance⟩

theorem eatPunct_run {mark : Punct} (h : advance st = .ok (t, st')) (hmark : t.isPunct mark = true) :
    eatPunct mark st = .ok (true, st') := by
  refine (bind_run (atPunct_run (nth_of_advance h))).trans ?_
  rw [hmark, if_pos rfl]
  exact bind_run h

/-- A run of one of several parsers. -/
theorem exists_branch {α : Type} {x : Parser α} {r : α × State} (h : x st = .ok r) : ∃ y, x = y ∧ y st = .ok r :=
  ⟨x, rfl, h⟩

/-- A mark that has to come next does. -/
theorem stops_of_expectPunct {mark : Punct} (h : expectPunct mark st = .ok (t, st')) :
    Stops (·.isMark mark) st.stream ∧ advance st = .ok (t, st') := by
  obtain ⟨b, mid, hat, hrest⟩ := exists_of_bind h
  obtain ⟨rfl, t', ht', hmark⟩ := head_of_atPunct hat
  cases b with
  | false =>
      obtain ⟨t'', mid', -, hresult⟩ := exists_of_bind hrest
      cases hresult
  | true => exact ⟨⟨t', ht', hmark⟩, hrest⟩

theorem expectPunct_run {mark : Punct} (h : advance st = .ok (t, st')) (hkind : t.kind = .punct mark) :
    expectPunct mark st = .ok (t, st') := by
  refine (bind_run (atPunct_run (nth_of_advance h))).trans ?_
  rw [Token.isPunct_eq, hkind, Kind.isMark_punct, beq_self_eq_true]
  exact h

/-- A name is one token. -/
theorem bindingName_cases {id : Ident} (hst : st.stream.Ended) (h : bindingName st = .ok (id, st')) :
    ∃ t rest, st.stream = .cons t rest ∧ st' = ⟨rest, t.span.stop⟩ ∧ id.span = t.span ∧
      (t.kind = .identifier id.name ∨ t.kind = .keyword .asyncWord ∧ id.name = "async") := by
  obtain ⟨t, mid, hpeek, hrest⟩ := exists_of_bind h
  obtain ⟨ht, rfl⟩ := Matches.nth_of_peekNth (i := 0) hpeek
  obtain ⟨stream, lastEnd⟩ := mid
  obtain ⟨x, hbranch, hrun⟩ := exists_branch hrest
  cases stream with
  | failed fault => cases ht
  | done t' =>
      cases ht
      have hend : t.isEof = true := hst
      split at hbranch
      · rename_i hkind
        rw [Token.isEof, hkind] at hend
        cases hend
      · rename_i hkind
        rw [Token.isEof, hkind] at hend
        cases hend
      · subst hbranch
        exact absurd hrun unexpected_run
  | cons t' rest =>
      cases ht
      split at hbranch <;> subst hbranch
      · rename_i hkind
        cases hrun
        exact ⟨t, rest, rfl, rfl, rfl, .inl hkind⟩
      · rename_i hkind
        cases hrun
        exact ⟨t, rest, rfl, rfl, rfl, .inr ⟨hkind, rfl⟩⟩
      · exact absurd hrun unexpected_run

theorem ended_of_advance {mark : Punct} (hst : st.stream.Ended) (h : advance st = .ok (t, st'))
    (hmark : t.isPunct mark = true) : st'.stream.Ended ∧ st'.stream.length + 1 = st.stream.length := by
  obtain ⟨stream, lastEnd⟩ := st
  cases stream with
  | failed fault => cases h
  | cons t' rest =>
      cases h
      exact ⟨hst, rfl⟩
  | done t' =>
      cases h
      have hend : t.isEof = true := hst
      rw [Matches.isEof_of_kind_eq (Matches.kind_of_isPunct hmark) nofun] at hend
      cases hend

theorem bindingTarget_of_name {id : Ident} (hst : st.stream.Ended) (h : bindingName st = .ok (id, st')) :
    bindingTarget g st = .ok (.ident id, st') := by
  obtain ⟨t, rest, hstream, -, -, hkind⟩ := bindingName_cases hst h
  have ht : nth 0 st.stream = .ok t := by rw [hstream]; rfl
  unfold bindingTarget
  rw [bind_run (peek_run ht)]
  rcases hkind with hkind | ⟨hkind, -⟩
  · rw [hkind]
    exact bind_run h
  · rw [hkind]
    exact bind_run h

/-! ## From an expression without operators to an assignment -/

/-- Nothing is added to an expression without operators in front of a token that is none. -/
theorem conditional_of_primary (ht : nth 0 st.stream = .ok t) (hstart : t.kind.startsOperand = true)
    (hprimary : primary g st = .ok (e, st')) (hstop : Stops Kind.endsTarget st'.stream) :
    conditional g st = .ok (e, st') := by
  obtain ⟨t', ht', hkind⟩ := hstop
  obtain ⟨hstays, hquestion, -⟩ := Kind.endsTarget_cases hkind
  simp only [Kind.stopsInfix, Kind.stopsOperand, Bool.and_eq_true, Option.isNone_iff_eq_none] at hstays
  simp only [Kind.startsOperand, Bool.and_eq_true, Option.isNone_iff_eq_none, Bool.not_eq_true'] at hstart
  have hchain : chain g e (st'.stream.length + 1) st' = .ok (e, st') := by
    rw [chain, bind_run (peek_run ht')]
    have hnone := hstays.1.1
    refine congrFun (g := (pure e : Parser Expr)) ?_ st'
    split
    case h_7 => rfl
    all_goals
      rename_i hmark
      rw [hmark] at hnone
      cases hnone
  have hsuffixed : suffixed g st = .ok (e, st') := by
    unfold suffixed
    rw [bind_run hprimary, bind_run (show bound st' = .ok (st'.stream.length + 1, st') from rfl), bind_run hchain,
      bind_run (peek_run ht')]
    simp only [hstays.1.2]
    rfl
  have hunary : unary g st = .ok (e, st') := by
    unfold unary
    rw [bind_run (peek_run ht)]
    simp only [hstart.1.1, Token.isKeyword_eq, hstart.1.2, hstart.2, Bool.false_eq_true, if_false]
    exact hsuffixed
  have hbinary : binary g 1 st = .ok (e, st') := by rw [binary_eq hunary, infixFrom_stop ht' hstays.2]
  unfold conditional
  rw [bind_run hbinary, bind_run (eatPunct_not_run ht' hquestion)]
  rfl

/-- A target looks like no arrow function. -/
theorem arrowAhead_of_target (hst : st.stream.Ended) (h : bindingTarget g st = .ok (p, st'))
    (hstop : Stops Kind.endsTarget st'.stream) : arrowAhead st.stream = .ok false := by
  obtain ⟨t, mid, hpeek, hrest⟩ := exists_of_bind h
  obtain ⟨ht, rfl⟩ := Matches.nth_of_peekNth (i := 0) hpeek
  have hopens : ∀ mark, mark ≠ .openParen → t.kind = .punct mark → arrowAhead mid.stream = .ok false := by
    intro mark hmark hkind
    obtain ⟨stream, lastEnd⟩ := mid
    cases stream with
    | cons t' rest =>
        cases ht
        rw [arrowAhead_of_not (by rw [Token.isKeyword_eq, hkind]; rfl)]
        exact parametersAhead_of_kind (by rw [hkind]; rfl) (by rw [hkind]; simpa using hmark)
    | done t' => rfl
    | failed fault => cases ht
  obtain ⟨x, hbranch, hrun⟩ := exists_branch hrest
  split at hbranch
  · rename_i hkind
    exact hopens .openBracket nofun hkind
  · rename_i hkind
    exact hopens .openBrace nofun hkind
  · subst hbranch
    obtain ⟨id, mid', hname, hresult⟩ := exists_of_bind hrun
    cases hresult
    obtain ⟨t', rest, hstream, rfl, -, hkind⟩ := bindingName_cases hst hname
    obtain ⟨next, hnext, hkind'⟩ := hstop
    have harrow : next.isPunct .arrow = false := by
      have hends := (Kind.endsTarget_cases hkind').2.2
      simp only [endsArrow, Bool.and_eq_true, Bool.not_eq_true'] at hends
      exact hends.2
    rw [hstream]
    rcases hkind with hkind | ⟨hkind, -⟩
    · rw [arrowAhead_of_not (by rw [Token.isKeyword_eq, hkind]; rfl), parametersAhead, hkind]
      show (nth 0 rest).map _ = _
      rw [hnext, ← harrow]
      rfl
    · obtain ⟨hparams, -⟩ := noArrow_of_stops ⟨next, hnext, (Kind.endsTarget_cases hkind').2.2⟩
      rw [arrowAhead, Token.isKeyword_eq, hkind, if_pos (by decide), hnext]
      show (if next.newlineBefore then _ else _) = _
      split
      · rfl
      · split
        · exact hparams
        · exact hparams
        · rename_i hmark
          rw [Token.isPunct_eq, hmark] at harrow
          cases harrow
        · rfl

theorem liftM_run {α : Type} {x : Target α} {a : α} (h : x = .ok a) : (liftM x : Parser α) st = .ok (a, st) := by
  rw [h]
  rfl

theorem assignment_of_conditional (hahead : arrowAhead st.stream = .ok false) (h : conditional g st = .ok (e, mid)) :
    assignment g st = assigned g e mid := by
  show (liftM (arrowAhead st.stream) >>= fun b =>
    if b = true then arrow g else conditional g >>= assigned g : Parser Expr) st = _
  rw [bind_run (liftM_run hahead), if_neg Bool.false_ne_true, bind_run h]

/-! ## Things with commas between them -/

section Lists

variable {α β : Type} {close : Punct} {fuel : Nat} {item : Parser α} {item₂ : Parser β} {as : List α} {good : α → Bool}
  {R : α → β → Prop}

/-- Where one parser reads a good thing in front of a comma or a closing mark, another one reads something that goes with
it, up to the same token. -/
structure Echoes (n : Nat) (close : Punct) (good : α → Bool) (R : α → β → Prop) (item : Parser α) (item₂ : Parser β) :
    Prop where
  ended : ∀ {st a st'}, st.stream.Ended → item st = .ok (a, st') → st'.stream.Ended ∧ st'.stream.length ≤ st.stream.length
  echo : ∀ {st a st'}, st.stream.Ended → st.stream.length < n → item st = .ok (a, st') → good a = true →
    Stops (endsItem close) st'.stream → ∃ b, item₂ st = .ok (b, st') ∧ R a b

variable (hitem : Echoes n close good R item item₂)
include hitem

/-- One thing, and what a list goes on with: another thing behind a comma, or the closing mark. -/
theorem Echoes.more (hst : st.stream.Ended) (hlt : st.stream.length < n) {rest : Parser (List α)} {rest₂ : Parser (List β)}
    (hrest : ∀ {st as}, st.stream.Ended → st.stream.length < n → rest st = .ok (as, st') → (∀ a ∈ as, good a = true) →
      ∃ bs, rest₂ st = .ok (bs, st') ∧ List.Forall₂ R as bs)
    (h : (do
      let x ← item
      if ← eatPunct .comma then return x :: (← rest) else return [x] : Parser (List α)) st = .ok (as, st'))
    (hgood : ∀ a ∈ as, good a = true) (hstop : Stops (·.isMark close) st'.stream) :
    ∃ bs, (do
      let x ← item₂
      if ← eatPunct .comma then return x :: (← rest₂) else return [x] : Parser (List β)) st = .ok (bs, st') ∧
        List.Forall₂ R as bs := by
  obtain ⟨a, mid, ha, hmore⟩ := exists_of_bind h
  obtain ⟨hmid, hle⟩ := hitem.ended hst ha
  obtain ⟨b, behind, heat, hresult⟩ := exists_of_bind hmore
  obtain ⟨t, ht, hmark, hadvance⟩ := eatPunct_cases heat
  cases b with
  | true =>
      obtain ⟨as', last, has, hresult⟩ := exists_of_bind hresult
      cases hresult
      rw [List.forall_mem_cons] at hgood
      have hcomma : Stops (endsItem close) mid.stream := ⟨t, ht, by rw [endsItem, ← Token.isPunct_eq, hmark]; rfl⟩
      obtain ⟨x, hx, hR⟩ := hitem.echo hst hlt ha hgood.1 hcomma
      obtain ⟨hbehind, hcount⟩ := ended_of_advance hmid hadvance hmark
      obtain ⟨xs, hxs, hRs⟩ := hrest hbehind (by omega) has hgood.2
      refine ⟨x :: xs, ?_, .cons hR hRs⟩
      rw [bind_run hx, bind_run heat, if_pos rfl, bind_run hxs]
      rfl
  | false =>
      cases hresult
      obtain rfl : st' = mid := hadvance
      have hclose : Stops (endsItem close) st'.stream := hstop.mono fun k hk => by rw [endsItem, hk, Bool.or_true]
      obtain ⟨x, hx, hR⟩ := hitem.echo hst hlt ha (hgood a List.mem_cons_self) hclose
      refine ⟨[x], ?_, .cons hR .nil⟩
      rw [bind_run hx, bind_run heat]
      rfl

theorem Echoes.separated (hst : st.stream.Ended) (hlt : st.stream.length < n)
    (h : separated close item fuel st = .ok (as, st')) (hgood : ∀ a ∈ as, good a = true)
    (hstop : Stops (·.isMark close) st'.stream) :
    ∃ bs, Parse.separated close item₂ fuel st = .ok (bs, st') ∧ List.Forall₂ R as bs := by
  induction fuel generalizing st as with
  | zero => cases h
  | succ fuel ih =>
      obtain ⟨b, mid, hat, hrest⟩ := exists_of_bind h
      obtain ⟨rfl, -⟩ := head_of_atPunct hat
      unfold Parse.separated
      rw [bind_run hat]
      cases b with
      | true =>
          cases hrest
          exact ⟨[], rfl, .nil⟩
      | false => exact hitem.more hst hlt (fun hst hlt h hgood => ih hst hlt h hgood) hrest hgood hstop

theorem Echoes.separatedWithHoles (hole : α) (hole₂ : β) (hhole : R hole hole₂) (hst : st.stream.Ended)
    (hlt : st.stream.length < n) (h : separatedWithHoles close hole item fuel st = .ok (as, st'))
    (hgood : ∀ a ∈ as, good a = true) (hstop : Stops (·.isMark close) st'.stream) :
    ∃ bs, Parse.separatedWithHoles close hole₂ item₂ fuel st = .ok (bs, st') ∧ List.Forall₂ R as bs := by
  induction fuel generalizing st as with
  | zero => cases h
  | succ fuel ih =>
      obtain ⟨b, mid, hat, hrest⟩ := exists_of_bind h
      obtain ⟨rfl, -⟩ := head_of_atPunct hat
      unfold Parse.separatedWithHoles
      rw [bind_run hat]
      cases b with
      | true =>
          cases hrest
          exact ⟨[], rfl, .nil⟩
      | false =>
          obtain ⟨b, behind, heat, hmore⟩ := exists_of_bind hrest
          obtain ⟨t, -, hmark, hadvance⟩ := eatPunct_cases heat
          rw [if_neg Bool.false_ne_true, bind_run heat]
          cases b with
          | true =>
              obtain ⟨as', last, has, hresult⟩ := exists_of_bind hmore
              cases hresult
              obtain ⟨hbehind, hcount⟩ := ended_of_advance hst hadvance hmark
              obtain ⟨bs, hbs, hRs⟩ := ih hbehind (by omega) has (fun a ha => hgood a (List.mem_cons_of_mem _ ha))
              refine ⟨hole₂ :: bs, ?_, .cons hhole hRs⟩
              rw [if_pos rfl, bind_run hbs]
              rfl
          | false =>
              obtain rfl : behind = mid := hadvance
              exact hitem.more hst hlt (fun hst hlt h hgood => ih hst hlt h hgood) hmore hgood hstop

end Lists

/-! ## Targets -/

/-- Targets on fewer than so many tokens are read as expressions that stand for them, up to the same token. -/
def Rereads (n : Nat) : Prop :=
  ∀ m st p st', st.stream.Ended → st.stream.length < n + 1 → bindingTarget (grammar m) st = .ok (p, st') →
    p.isPlain = true → Stops Kind.endsTarget st'.stream →
      ∃ e, conditional (grammar n) st = .ok (e, st') ∧ toPattern e = .ok p

/-- Kinds of tokens behind elements and entries. -/
def endsPart (k : Kind) : Bool := k.isMark .comma || k.isMark .closeBracket || k.isMark .closeBrace

theorem endsTarget_of_endsPart {k : Kind} (h : endsPart k = true) : k.endsTarget = true := by
  rw [Kind.endsTarget, ← endsPart, h]
  rfl

theorem isMark_assign_of_endsPart {k : Kind} (h : endsPart k = true) : k.isMark .assign = false ∧ assignOp? k = none := by
  simp only [endsPart, Bool.or_eq_true] at h
  rcases h with (h | h) | h <;> rw [Kind.eq_of_isMark h] <;> exact ⟨rfl, rfl⟩

theorem isMark_openParen_of_endsPart {k : Kind} (h : endsPart k = true) : k.isMark .openParen = false := by
  simp only [endsPart, Bool.or_eq_true] at h
  rcases h with (h | h) | h <;> rw [Kind.eq_of_isMark h] <;> rfl

theorem bindingTarget_same (hst : st.stream.Ended) (h : bindingTarget (grammar m) st = .ok (p, st')) :
    st'.stream.Ended ∧ st'.stream.length + 1 ≤ st.stream.length := by
  have hself : ∀ k, Matches 0 (st.stream.length + 1) 1 AnyStream [] [] (Pattern.moved 0) (bindingTarget (grammar k))
      (bindingTarget (grammar st.stream.length)) := fun k => bindingTarget_matches (grammar_matches 0 k _)
  exact ((hself m).same (hself _) Pattern.moved_zero hst (Nat.lt_succ_self _) h).2

theorem assignment_same {v : Expr} (hst : st.stream.Ended) (hlt : st.stream.length < n)
    (h : (grammar m).assignment st = .ok (v, st')) : (grammar n).assignment st = .ok (v, st') ∧ st'.stream.Ended :=
  have hsame := ((grammar_matches 0 m n).assignment []).same ((grammar_matches 0 n n).assignment []) Expr.moved_zero hst hlt h
  ⟨hsame.1, hsame.2.1⟩

/-- A grammar reads a target if the one below does. -/
theorem target_of_grammar (h : (grammar m).bindingTarget st = .ok (p, st')) : ∃ k, bindingTarget (grammar k) st = .ok (p, st') := by
  cases m with
  | zero => cases h
  | succ m => exact ⟨m, h⟩

variable (hn : Rereads n)
include hn

/-- A target without a default. -/
theorem assignment_of_target (hst : st.stream.Ended) (hlt : st.stream.length < n + 1)
    (h : bindingTarget (grammar m) st = .ok (p, st')) (hp : p.isPlain = true) (hstop : Stops endsPart st'.stream) :
    ∃ e, assignment (grammar n) st = .ok (e, st') ∧ toPattern e = .ok p := by
  have hends := hstop.mono fun k => endsTarget_of_endsPart
  obtain ⟨e, he, hconvert⟩ := hn m st p st' hst hlt h hp hends
  obtain ⟨t, ht, hkind⟩ := hstop
  refine ⟨e, ?_, hconvert⟩
  rw [assignment_of_conditional (arrowAhead_of_target hst h hends) he, assigned, bind_run (peek_run ht),
    (isMark_assign_of_endsPart hkind).2]
  rfl

/-- A target with a default. -/
theorem assignment_of_default {v : Expr} (hst : st.stream.Ended) (hlt : st.stream.length < n + 1)
    (h : bindingTarget (grammar m) st = .ok (p, mid)) (hp : p.isPlain = true) (ht : nth 0 mid.stream = .ok t)
    (hassign : t.isPunct .assign = true) {behind : State} (hadvance : advance mid = .ok (t, behind))
    (hvalue : (grammar n).assignment behind = .ok (v, st')) :
    assignment (grammar n) st = .ok (.assign .assign p v (p.span.merge v.span), st') := by
  have hkind : t.kind = .punct .assign := Matches.kind_of_isPunct hassign
  have hends : Stops Kind.endsTarget mid.stream := ⟨t, ht, by rw [hkind]; rfl⟩
  obtain ⟨e, he, hconvert⟩ := hn m st p mid hst hlt h hp hends
  rw [assignment_of_conditional (arrowAhead_of_target hst h hends) he, assigned, bind_run (peek_run ht), hkind]
  refine (bind_run (liftM_run hconvert)).trans ?_
  dsimp only
  rw [bind_run hadvance, bind_run hvalue]
  rfl

/-! ## Elements and entries -/

/-- An element with or without a default. -/
theorem assignment_of_element (hst : st.stream.Ended) (hlt : st.stream.length < n + 1)
    (h : bindingElement (grammar m) st = .ok (p, st')) (hp : p.isPlain = true) (hstop : Stops endsPart st'.stream) :
    ∃ e, assignment (grammar n) st = .ok (e, st') ∧ toElement e = .ok p := by
  obtain ⟨q, mid, htarget, hrest⟩ := exists_of_bind h
  obtain ⟨k, htarget⟩ := target_of_grammar htarget
  obtain ⟨hmid, hless⟩ := bindingTarget_same hst htarget
  obtain ⟨b, behind, heat, hrest⟩ := exists_of_bind hrest
  obtain ⟨t, ht, hassign, hadvance⟩ := eatPunct_cases heat
  cases b with
  | false =>
      cases hrest
      obtain rfl : st' = mid := hadvance
      obtain ⟨e, he, hconvert⟩ := assignment_of_target hn hst hlt htarget hp hstop
      exact ⟨e, he, toElement_of_toPattern hconvert⟩
  | true =>
      obtain ⟨v, last, hvalue, hresult⟩ := exists_of_bind hrest
      cases hresult
      obtain ⟨hbehind, hcount⟩ := ended_of_advance hmid hadvance hassign
      obtain ⟨hvalue, -⟩ := assignment_same (n := n) hbehind (by omega) hvalue
      exact ⟨_, assignment_of_default hn hst hlt htarget hp ht hassign hadvance hvalue, rfl⟩

/-- An element of an array. -/
theorem item_of_element (hst : st.stream.Ended) (hlt : st.stream.length < n + 1)
    (h : bindingOrRest (grammar m) st = .ok (p, st')) (hp : p.isPlain = true) (hstop : Stops endsPart st'.stream) :
    ∃ i, item (grammar (n + 1)) st = .ok (i, st') ∧ itemsToPatterns [i] = .ok [p] := by
  obtain ⟨b, mid, heat, hrest⟩ := exists_of_bind h
  obtain ⟨t, ht, hmark, hadvance⟩ := eatPunct_cases heat
  unfold item
  cases b with
  | false =>
      obtain rfl : mid = st := hadvance
      obtain ⟨e, he, hconvert⟩ := assignment_of_element hn hst hlt hrest hp hstop
      refine ⟨.expr e, ?_, by rw [itemsToPatterns, hconvert]; rfl⟩
      rw [bind_run heat]
      exact bind_run he
  | true =>
      obtain ⟨q, last, htarget, hresult⟩ := exists_of_bind hrest
      cases hresult
      obtain ⟨k, htarget⟩ := target_of_grammar htarget
      obtain ⟨hmid, hcount⟩ := ended_of_advance hst hadvance hmark
      obtain ⟨e, he, hconvert⟩ := assignment_of_target hn hmid (by omega) htarget hp hstop
      refine ⟨.spread e, ?_, by rw [itemsToPatterns, hconvert]; rfl⟩
      rw [bind_run heat]
      exact bind_run he

/-- An entry of an object. -/
theorem property_of_entry {q : PatternProp} (hst : st.stream.Ended) (hlt : st.stream.length < n + 1)
    (h : patternProp (grammar m) st = .ok (q, st')) (hq : q.isPlain = true) (hstop : Stops endsPart st'.stream) :
    ∃ x, property (grammar (n + 1)) st = .ok (x, st') ∧ propsToPatterns [x] = .ok [q] := by
  obtain ⟨b, mid, heat, hrest⟩ := exists_of_bind h
  obtain ⟨t, ht, hmark, hadvance⟩ := eatPunct_cases heat
  unfold property
  rw [bind_run (peek_run ht), hmark]
  cases b with
  | true =>
      obtain ⟨id, last, hname, hresult⟩ := exists_of_bind hrest
      cases hresult
      obtain ⟨hmid, hcount⟩ := ended_of_advance hst hadvance hmark
      obtain ⟨e, he, hconvert⟩ :=
        assignment_of_target (m := 0) hn hmid (by omega) (bindingTarget_of_name hmid hname) rfl hstop
      refine ⟨.spread e, ?_, by rw [propsToPatterns, hconvert]; rfl⟩
      rw [if_pos rfl, bind_run hadvance]
      exact bind_run he
  | false =>
      obtain rfl : mid = st := hadvance
      obtain ⟨t', mid', hpeek, hbody⟩ := exists_of_bind hrest
      obtain ⟨ht', rfl⟩ := Matches.nth_of_peekNth (i := 0) hpeek
      obtain rfl : t' = t := Except.ok.inj (ht'.symm.trans ht)
      obtain ⟨k, afterKey, hkey, hbehindKey⟩ := exists_of_bind hbody
      obtain ⟨hkey, hafterKey, hless⟩ := (key_matches (grammar_matches 0 m (n + 1))).same
        (key_matches (grammar_matches 0 (n + 1) (n + 1))) Key.moved_zero hst hlt hkey
      rw [if_neg Bool.false_ne_true, bind_run hkey]
      obtain ⟨b, behind, hcolon, hvalue⟩ := exists_of_bind hbehindKey
      obtain ⟨next, hnext, hmark', hadvance'⟩ := eatPunct_cases hcolon
      rw [bind_run hcolon]
      cases b with
      | true =>
          obtain ⟨value, last, helement, hresult⟩ := exists_of_bind hvalue
          cases hresult
          obtain ⟨hbehind, hcount⟩ := ended_of_advance hafterKey hadvance' hmark'
          obtain ⟨e, he, hconvert⟩ := assignment_of_element hn hbehind (by omega) helement (isPlain_init ▸ hq) hstop
          refine ⟨.init k e false (t'.span.merge e.span), ?_, by rw [propsToPatterns, hconvert]; rfl⟩
          exact bind_run he
      | false =>
          obtain rfl : behind = afterKey := hadvance'
          obtain ⟨x, hbranch, hrun⟩ := exists_branch hvalue
          rw [if_neg Bool.false_ne_true] at hbranch
          split at hbranch <;> subst hbranch
          · rename_i id name hkind _
            obtain ⟨b, last, hassign, hresult⟩ := exists_of_bind hrun
            cases b with
            | true =>
                -- an entry that is a name with a default
                obtain ⟨v, last', -, hresult⟩ := exists_of_bind hresult
                cases hresult
                cases hq
            | false =>
                cases hresult
                obtain ⟨_, -, -, hlast⟩ := eatPunct_cases hassign
                obtain rfl : st' = behind := hlast
                obtain ⟨stop, hstop, hends⟩ := hstop
                obtain rfl : next = stop := Except.ok.inj (hnext.symm.trans hstop)
                have hparen := isMark_openParen_of_endsPart hends
                refine ⟨.init (.name id) (.identifier id.name id.span) true t'.span, ?_, rfl⟩
                rw [if_neg Bool.false_ne_true, bind_run (peek_run hnext), Token.isPunct_eq, hparen, if_neg Bool.false_ne_true, hkind]
                rfl
          · cases hrun
          · cases hrun

omit hn

theorem endsPart_of_endsItem {close : Punct} (hclose : close = .closeBracket ∨ close = .closeBrace) {k : Kind}
    (h : endsItem close k = true) : endsPart k = true := by
  simp only [endsItem, Bool.or_eq_true] at h
  rcases h with h | h
  · rw [Kind.eq_of_isMark h]
    rfl
  · rcases hclose with rfl | rfl <;> rw [Kind.eq_of_isMark h] <;> rfl

theorem itemsToPatterns_of_forall₂ {ps : List Pattern} {is : List Item}
    (h : List.Forall₂ (fun p i => itemsToPatterns [i] = .ok [p]) ps is) : itemsToPatterns is = .ok ps := by
  induction h with
  | nil => rfl
  | cons hi _ ih => exact itemsToPatterns_cons hi ih

theorem propsToPatterns_of_forall₂ {qs : List PatternProp} {xs : List Property}
    (h : List.Forall₂ (fun q x => propsToPatterns [x] = .ok [q]) qs xs) : propsToPatterns xs = .ok qs := by
  induction h with
  | nil => rfl
  | cons hx _ ih => exact propsToPatterns_cons hx ih

theorem bindingOrRest_echoes (hn : Rereads n) (m : Nat) : Echoes (n + 1) .closeBracket Pattern.isPlain
    (fun p i => itemsToPatterns [i] = .ok [p]) (bindingOrRest (grammar m)) (item (grammar (n + 1))) where
  ended {st a st'} hst h := by
    have hself : ∀ k, Matches 0 (st.stream.length + 1) 1 AnyStream [] [] (Pattern.moved 0) (bindingOrRest (grammar k))
        (bindingOrRest (grammar (st.stream.length + 1))) := fun k => bindingOrRest_matches (grammar_matches 0 k _)
    obtain ⟨-, hended, hcount⟩ := (hself m).same (hself _) Pattern.moved_zero hst (Nat.lt_succ_self _) h
    exact ⟨hended, Nat.le_of_succ_le hcount⟩
  echo hst hlt h hp hstop :=
    item_of_element hn hst hlt h hp (hstop.mono fun _ => endsPart_of_endsItem (.inl rfl))

theorem patternProp_echoes (hn : Rereads n) (m : Nat) : Echoes (n + 1) .closeBrace PatternProp.isPlain
    (fun q x => propsToPatterns [x] = .ok [q]) (patternProp (grammar m)) (property (grammar (n + 1))) where
  ended {st a st'} hst h := by
    have hself : ∀ k, Matches 0 (st.stream.length + 1) 1 AnyStream [] [] (PatternProp.moved 0) (patternProp (grammar k))
        (patternProp (grammar (st.stream.length + 1))) := fun k => patternProp_matches (grammar_matches 0 k _)
    obtain ⟨-, hended, hcount⟩ := (hself m).same (hself _) PatternProp.moved_zero hst (Nat.lt_succ_self _) h
    exact ⟨hended, Nat.le_of_succ_le hcount⟩
  echo hst hlt h hq hstop :=
    property_of_entry hn hst hlt h hq (hstop.mono fun _ => endsPart_of_endsItem (.inr rfl))

theorem ended_of_open {mark : Punct} {t' : Token} (hst : st.stream.Ended) (ht : nth 0 st.stream = .ok t)
    (hkind : t.kind = .punct mark) (hadvance : advance st = .ok (t', mid)) :
    mid.stream.Ended ∧ mid.stream.length + 1 = st.stream.length := by
  obtain rfl : t' = t := Except.ok.inj ((nth_of_advance hadvance).symm.trans ht)
  have hmark : t'.isPunct mark = true := by rw [Token.isPunct_eq, hkind, Kind.isMark_punct, beq_self_eq_true]
  exact ended_of_advance hst hadvance hmark

/-- A name is read as an identifier. -/
theorem primary_of_name {id : Ident} (hst : st.stream.Ended) (h : bindingName st = .ok (id, st')) :
    primary g st = .ok (.identifier id.name id.span, st') ∧ ∃ t, nth 0 st.stream = .ok t ∧ t.kind.startsOperand = true := by
  obtain ⟨t, rest, hstream, rfl, hspan, hkind⟩ := bindingName_cases hst h
  obtain ⟨stream, lastEnd⟩ := st
  obtain rfl : stream = .cons t rest := hstream
  have ht : nth 0 (Stream.cons t rest) = .ok t := rfl
  refine ⟨?_, t, rfl, ?_⟩
  · unfold primary
    rw [bind_run (peek_run ht), hspan]
    rcases hkind with hkind | ⟨hkind, hname⟩
    · rw [hkind]
      rfl
    · rw [hkind, hname]
      rfl
  · rcases hkind with hkind | ⟨hkind, -⟩ <;> rw [hkind] <;> rfl

/-- Targets are read as expressions that stand for them. The induction is on the depth: elements and entries are one level
deeper. -/
theorem rereads (n : Nat) : Rereads n := by
  induction n with
  | zero =>
      intro m st p st' hst hlt h _ _
      obtain ⟨-, hcount⟩ := bindingTarget_same hst h
      omega
  | succ n ih =>
      intro m st p st' hst hlt h hp hstop
      obtain ⟨t, mid, hpeek, hrest⟩ := exists_of_bind h
      obtain ⟨ht, rfl⟩ := Matches.nth_of_peekNth (i := 0) hpeek
      obtain ⟨x, hbranch, hrun⟩ := exists_branch hrest
      split at hbranch <;> subst hbranch
      · rename_i hkind
        obtain ⟨t', inner, hadvance, hbound⟩ := exists_of_bind hrun
        obtain ⟨k, inner', ⟨⟩, hlist⟩ := exists_of_bind hbound
        obtain ⟨ps, last, hps, hclose⟩ := exists_of_bind hlist
        obtain ⟨close, st', hexpect, hresult⟩ := exists_of_bind hclose
        cases hresult
        obtain ⟨hinner, hcount⟩ := ended_of_open hst ht hkind hadvance
        obtain ⟨is, his, hconvert⟩ := (bindingOrRest_echoes ih m).separatedWithHoles .hole .hole rfl hinner
          (by omega) hps (arePlain_iff.1 hp) (stops_of_expectPunct hexpect).1
        have hprimary : primary (grammar (n + 1)) mid = .ok (.array is (t.span.merge close.span), st') := by
          unfold primary
          rw [bind_run (peek_run ht), hkind]
          refine (bind_run hadvance).trans ((bind_run rfl).trans ((bind_run his).trans ((bind_run hexpect).trans rfl)))
        refine ⟨_, conditional_of_primary ht (by rw [hkind]; rfl) hprimary hstop, ?_⟩
        rw [toPattern, itemsToPatterns_of_forall₂ hconvert]
        rfl
      · rename_i hkind
        obtain ⟨t', inner, hadvance, hbound⟩ := exists_of_bind hrun
        obtain ⟨k, inner', ⟨⟩, hlist⟩ := exists_of_bind hbound
        obtain ⟨qs, last, hqs, hclose⟩ := exists_of_bind hlist
        obtain ⟨close, st', hexpect, hresult⟩ := exists_of_bind hclose
        cases hresult
        obtain ⟨hinner, hcount⟩ := ended_of_open hst ht hkind hadvance
        obtain ⟨xs, hxs, hconvert⟩ := (patternProp_echoes ih m).separated hinner (by omega) hqs (arePlainProps_iff.1 hp)
          (stops_of_expectPunct hexpect).1
        have hprimary : primary (grammar (n + 1)) mid = .ok (.object xs (t.span.merge close.span), st') := by
          unfold primary
          rw [bind_run (peek_run ht), hkind]
          refine (bind_run hadvance).trans ((bind_run rfl).trans ((bind_run hxs).trans ((bind_run hexpect).trans rfl)))
        refine ⟨_, conditional_of_primary ht (by rw [hkind]; rfl) hprimary hstop, ?_⟩
        rw [toPattern, propsToPatterns_of_forall₂ hconvert]
        rfl
      · obtain ⟨id, mid', hname, hresult⟩ := exists_of_bind hrun
        cases hresult
        obtain ⟨hprimary, t, ht, hstart⟩ := primary_of_name (g := grammar (n + 1)) hst hname
        exact ⟨_, conditional_of_primary ht hstart hprimary hstop, rfl⟩

end Parse
end FieldScript
