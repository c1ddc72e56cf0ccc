import FieldScript.Proofs.Parse.Named
import FieldScript.Proofs.Parse.TwinParts

/-!
# Parsers side by side: operators, statements and the grammar

Whether an arrow function comes next is decided by tokens far ahead: by the one behind the parenthesis that closes the
next one. That parenthesis closes nothing but what is open, because the parser goes on to consume it in either case, and
so the second parser finds the same (`arrowAhead_twin`).
-/

namespace FieldScript.Parse

open Token (Kind Stream)
open Matches (HeadIs isEof_of_kind_eq kind_of_isPunct kind_of_isKeyword)

variable {d n m : Nat} {g g₂ : Grammar} {N : Stream → Prop} {o o' : Nest} {fuel fuel₂ : Nat} {t : Token}

/-! ## Operators -/

/-- No operator opens or closes anything. -/
theorem nest_of_unaryOp {kind : Kind} {op : UnaryOp} (h : unaryOp? kind = some op) (o : Nest) : kind.nest o = some o := by
  unfold unaryOp? at h
  split at h <;> first | rfl | cases h

theorem nest_of_updateOp {kind : Kind} {op : UpdateOp} (h : updateOp? kind = some op) (o : Nest) :
    kind.nest o = some o := by
  unfold updateOp? at h
  split at h <;> first | rfl | cases h

theorem nest_of_infixOp {kind : Kind} {op : InfixOp} (h : infixOp? kind = some op) (o : Nest) : kind.nest o = some o := by
  unfold infixOp? at h
  split at h <;> first | rfl | cases h

theorem nest_of_assignOp {kind : Kind} {op : AssignOp} (h : assignOp? kind = some op) (o : Nest) :
    kind.nest o = some o := by
  unfold assignOp? at h
  split at h <;> first | rfl | cases h

/-- What follows a chain: a stepping operator, perhaps. -/
theorem update_matches (e : Expr) : Matches d n 0 N o o (Expr.moved d)
    (peek >>= fun t => match updateOp? t.kind with
      | some op => if t.newlineBefore = true then pure e else advance >>= fun _ => liftM (toSimpleTarget e) >>= fun target =>
          pure (Expr.update op false target (target.span.merge t.span))
      | none => pure e)
    (peek >>= fun t => match updateOp? t.kind with
      | some op => if t.newlineBefore = true then pure (e.moved d) else advance >>= fun _ =>
          liftM (toSimpleTarget (e.moved d)) >>= fun target =>
            pure (Expr.update op false target (target.span.merge t.span))
      | none => pure (e.moved d)) := by
  refine .peek fun t => ?_
  rw [Token.moved_kind]
  split
  · rename_i op hop
    refine .ite Iff.rfl (fun _ => .pure rfl) fun _ => ?_
    refine Matches.lax (.skip_first (r := o) (isEof_of_op hop rfl) (nest_of_updateOp hop o) ?_)
    refine .lift (fun _ => toSimpleTarget_moved d) fun p hp => .pure ?_
    simp [Expr.moved, Span.moved_merge, isPlaced_of_toSimpleTarget hp d]
  · exact .pure rfl

theorem suffixed_matches (hg : MatchingGrammar d n g g₂) :
    Matches d (n + 1) 1 N o o (Expr.moved d) (suffixed g) (suffixed g₂) := by
  refine .enter (primary_matches hg) fun e₀ => .bound fun l m hm => ?_
  exact .bind (chain_matches (hg.le hm) e₀ (Nat.le_refl m)) fun e => update_matches e

theorem unary_matches (hg : MatchingGrammar d n g g₂) :
    Matches d (n + 1) 1 N o o (Expr.moved d) (unary g) (unary g₂) := by
  refine .peek fun t => ?_
  rw [Token.moved_kind]
  split
  · rename_i op hop
    refine .skip (r := o) (isEof_of_op hop rfl) (nest_of_unaryOp hop o) (.bind (hg.unary o).lax fun e => .pure ?_)
    simp [Expr.moved, Span.moved_merge, Expr.span_moved]
  · refine .ite Iff.rfl (fun hword => ?_) fun _ => ?_
    · have hkind := kind_of_isKeyword hword
      refine .skip (r := o) (isEof_of_kind_eq hkind nofun) (by rw [hkind]; rfl) (.bind (hg.unary o).lax fun e => .pure ?_)
      simp [Expr.moved, Span.moved_merge, Expr.span_moved]
    · split
      · rename_i op hop
        refine .skip (r := o) (isEof_of_op hop rfl) (nest_of_updateOp hop o) (.bind (hg.unary o).lax fun e => ?_)
        refine .lift (fun _ => toSimpleTarget_moved d) fun p hp => .pure ?_
        simp [Expr.moved, Span.moved_merge, isPlaced_of_toSimpleTarget hp d]
      · exact suffixed_matches hg

theorem InfixOp.apply_moved (d : Nat) (op : InfixOp) (left right : Expr) :
    op.apply (left.moved d) (right.moved d) = (op.apply left right).moved d := by
  cases op <;> simp [InfixOp.apply, Expr.moved, Expr.span_moved, Span.moved_merge]

theorem infixFrom_matches (hg : MatchingGrammar d n g g₂) (least : Nat) (left : Expr) (hn : n ≤ fuel₂) :
    Matches d n 0 N o o (Expr.moved d) (infixFrom g least left fuel) (infixFrom g₂ least (left.moved d) fuel₂) := by
  induction fuel₂ generalizing fuel N n left with
  | zero =>
      obtain rfl : n = 0 := Nat.le_zero.1 hn
      exact .zero
  | succ fuel₂ ih =>
      cases fuel with
      | zero => exact .exhausted
      | succ fuel =>
          cases n with
          | zero => exact .zero
          | succ n =>
              refine .peek fun t => ?_
              rw [Token.moved_kind]
              split
              · rename_i op hop
                refine .ite Iff.rfl (fun _ => .pure rfl) fun _ => ?_
                have hless := hg.le (Nat.le_succ n)
                refine Matches.lax (.skip (r := o) (isEof_of_op hop rfl) (nest_of_infixOp hop o) ?_)
                refine .bind (hless.binary _ o).lax fun right => ?_
                rw [InfixOp.apply_moved]
                exact ih hless _ (by omega)
              · exact .pure rfl

theorem binary_matches (hg : MatchingGrammar d n g g₂) (least : Nat) :
    Matches d (n + 1) 1 N o o (Expr.moved d) (binary g least) (binary g₂ least) :=
  .enter (unary_matches hg) fun e => .bound fun _ m hm => infixFrom_matches (hg.le hm) least e (Nat.le_refl m)

/-- What follows a test: the branches, perhaps. -/
theorem branches_matches (hg : MatchingGrammar d n g g₂) (test : Expr) : Matches d n 0 N o o (Expr.moved d)
    (eatPunct .question >>= fun b => if b = true then g.assignment >>= fun yes => expectPunct .colon >>= fun _ =>
      g.assignment >>= fun no => pure (Expr.conditional test yes no (test.span.merge no.span)) else pure test)
    (eatPunct .question >>= fun b => if b = true then g₂.assignment >>= fun yes => expectPunct .colon >>= fun _ =>
      g₂.assignment >>= fun no => pure (Expr.conditional (test.moved d) yes no ((test.moved d).span.merge no.span)) else
        pure (test.moved d)) := by
  refine .eatPunct rfl ?_ (.pure rfl)
  refine .bind (hg.assignment o).lax fun yes => .expectPunct rfl fun _ => .bind (hg.assignment o).lax fun no => .pure ?_
  simp [Expr.moved, Expr.span_moved, Span.moved_merge]

theorem conditional_matches (hg : MatchingGrammar d n g g₂) :
    Matches d (n + 1) 1 N o o (Expr.moved d) (conditional g) (conditional g₂) :=
  .enter (binary_matches hg 1) fun test => branches_matches hg test

theorem assigned_matches (hg : MatchingGrammar d n g g₂) (left : Expr) :
    Matches d n 0 N o o (Expr.moved d) (assigned g left) (assigned g₂ (left.moved d)) := by
  refine .peek fun t => ?_
  rw [Token.moved_kind]
  split
  · exact .pure rfl
  · rename_i op hop
    have hrest : ∀ p : Pattern, p.IsPlaced → Matches d n 0 (Head t) o o (Expr.moved d)
        (advance >>= fun _ => g.assignment >>= fun value => pure (Expr.assign op p value (p.span.merge value.span)))
        (advance >>= fun _ => g₂.assignment >>= fun value =>
          pure (Expr.assign op (p.moved d) value ((p.moved d).span.merge value.span))) := by
      intro p hp
      refine Matches.lax (.skip_first (r := o) (isEof_of_op hop rfl) (nest_of_assignOp hop o) ?_)
      refine .bind (hg.assignment o).lax fun value => .pure ?_
      simp [Expr.moved, Expr.span_moved, Span.moved_merge, hp d]
    refine .ite Iff.rfl (fun _ => ?_) fun _ => ?_
    · exact .lift (fun _ => toPattern_moved d left) fun p hp => hrest p (isPlaced_of_toPattern hp)
    · exact .lift (fun _ => toSimpleTarget_moved d) fun p hp => hrest p (isPlaced_of_toSimpleTarget hp)


/-! ## Arrow functions -/

/-- Inside a parenthesis every token leaves it open, or closes it and leaves what was open around it. -/
theorem afterParens_cons {σ r : Nest} (hnest : t.kind.nest (σ ++ .paren :: o) = some r) :
    (σ = [] ∧ r = o ∧ ∀ rest, afterParens (σ.length + 1) (.cons t rest) = .ok (some rest)) ∨
      ∃ σ', r = σ' ++ .paren :: o ∧ ∀ rest, afterParens (σ.length + 1) (.cons t rest) = afterParens (σ'.length + 1) rest := by
  have hclose : ∀ b r, Nest.close b (σ ++ .paren :: o) = some r →
      (σ = [] ∧ b = .paren ∧ r = o) ∨ ∃ σ', σ = b :: σ' ∧ r = σ' ++ .paren :: o := by
    intro b r hb
    cases σ with
    | nil =>
        simp only [Nest.close, List.nil_append, Option.ite_none_right_eq_some, Option.some.injEq] at hb
        exact .inl ⟨rfl, hb.1, hb.2.symm⟩
    | cons b' σ =>
        simp only [Nest.close, List.cons_append, Option.ite_none_right_eq_some, Option.some.injEq] at hb
        exact .inr ⟨σ, by rw [hb.1], hb.2.symm⟩
  have hcloser : ∀ b, Nest.close b (σ ++ .paren :: o) = some r →
      (∀ rest, afterParens (σ.length + 1) (.cons t rest) =
        if σ.length = 0 then .ok (some rest) else afterParens σ.length rest) →
      (σ = [] ∧ r = o ∧ ∀ rest, afterParens (σ.length + 1) (.cons t rest) = .ok (some rest)) ∨
        ∃ σ', r = σ' ++ .paren :: o ∧
          ∀ rest, afterParens (σ.length + 1) (.cons t rest) = afterParens (σ'.length + 1) rest := by
    intro b hb hstep
    rcases hclose b r hb with ⟨rfl, -, rfl⟩ | ⟨σ', rfl, rfl⟩
    · exact .inl ⟨rfl, rfl, hstep⟩
    · exact .inr ⟨σ', rfl, fun rest => (hstep rest).trans (if_neg (Nat.succ_ne_zero _))⟩
  have hopener : ∀ b, b :: (σ ++ .paren :: o) = r →
      (∀ rest, afterParens (σ.length + 1) (.cons t rest) = afterParens (σ.length + 2) rest) →
      ∃ σ', r = σ' ++ .paren :: o ∧ ∀ rest, afterParens (σ.length + 1) (.cons t rest) = afterParens (σ'.length + 1) rest :=
    fun b hb hstep => ⟨b :: σ, hb.symm, hstep⟩
  unfold Kind.nest at hnest
  split at hnest
  · rename_i hkind
    exact .inr (hopener _ (Option.some.inj hnest) fun rest => by rw [afterParens, hkind])
  · rename_i hkind
    exact .inr (hopener _ (Option.some.inj hnest) fun rest => by rw [afterParens, hkind])
  · rename_i hkind
    exact .inr (hopener _ (Option.some.inj hnest) fun rest => by rw [afterParens, hkind])
  · rename_i hkind
    exact hcloser _ hnest fun rest => by rw [afterParens, hkind]; rfl
  · rename_i hkind
    exact hcloser _ hnest fun rest => by rw [afterParens, hkind]; rfl
  · rename_i hkind
    exact hcloser _ hnest fun rest => by rw [afterParens, hkind]; rfl
  · rename_i hkind
    exact .inr (hopener _ (Option.some.inj hnest) fun rest => by rw [afterParens, hkind])
  · rename_i hkind
    obtain ⟨r', hr', rfl⟩ := Option.map_eq_some_iff.1 hnest
    rcases hclose _ _ hr' with ⟨-, hparen, -⟩ | ⟨σ', rfl, rfl⟩
    · cases hparen
    · exact .inr ⟨.substitution :: σ', rfl, fun rest => by rw [afterParens, hkind]⟩
  · rename_i hkind
    rcases hclose _ _ hnest with ⟨-, hparen, -⟩ | ⟨σ', rfl, rfl⟩
    · cases hparen
    · exact .inr ⟨σ', rfl, fun rest => by rw [afterParens, hkind]; rfl⟩
  · refine .inr ⟨σ, (Option.some.inj hnest).symm, fun rest => ?_⟩
    rw [afterParens]
    split <;> first | rfl | (exfalso; simp_all)

/-- The parenthesis that closes the one in front is found on both sides if one of them goes on behind it. -/
theorem afterParens_twin {σ r : Nest} {st st' : State} {rest₂ : Stream} (hcrosses : Crosses r st o st')
    (hr : r = σ ++ .paren :: o) (htwin : Twin d r st.stream rest₂) : ∃ after after₂,
      afterParens (σ.length + 1) st.stream = .ok (some after) ∧
      afterParens (σ.length + 1) rest₂ = .ok (some after₂) ∧ Twin d o after after₂ := by
  induction hcrosses generalizing σ rest₂ with
  | refl o st =>
      have hlength := congrArg List.length hr
      simp only [List.length_append, List.length_cons] at hlength
      omega
  | @step r r' o t rest lastEnd st' nest more ih =>
      subst hr
      obtain ⟨rest₂, rfl, hrest⟩ := htwin
      have hnest₂ : (t.moved d).kind.nest (σ ++ .paren :: o) = some r' := nest
      rcases afterParens_cons nest with ⟨rfl, rfl, hfound⟩ | ⟨σ', hσ', hstep⟩
      · rcases afterParens_cons hnest₂ with ⟨-, -, hfound₂⟩ | ⟨σ', hσ', -⟩
        · exact ⟨rest, rest₂, hfound rest, hfound₂ rest₂, hrest _ nest⟩
        · have hlength := congrArg List.length hσ'
          simp only [List.length_append, List.length_cons] at hlength
          omega
      · rcases afterParens_cons hnest₂ with ⟨-, rfl, -⟩ | ⟨σ₂, hσ₂, hstep₂⟩
        · have hlength := congrArg List.length hσ'
          simp only [List.length_append, List.length_cons] at hlength
          omega
        · obtain rfl : σ₂ = σ' := List.append_cancel_right (hσ₂.symm.trans hσ')
          rw [hstep rest, hstep₂ rest₂]
          exact ih hσ' (hrest _ nest)

/-- A parenthesis comes next, and another stream is reached behind it. -/
def Enters (o : Nest) (s : Stream) : Prop :=
  ∃ lastEnd st', Crosses o ⟨s, lastEnd⟩ o st' ∧ st'.stream.length < s.length

theorem parametersAhead_twin {s s₂ : Stream} {b : Bool} (htwin : Twin d o s s₂) (hb : parametersAhead s = .ok b)
    (henters : ∀ t, Head t s → t.isPunct .openParen = true → Enters o s) : parametersAhead s₂ = .ok b := by
  cases s with
  | failed fault => cases hb
  | done t =>
      obtain ⟨-, rfl⟩ := htwin
      exact hb
  | cons t rest =>
      obtain ⟨rest₂, rfl, hrest⟩ := htwin
      -- Behind a name only the next token matters.
      have hname : t.kind.nest o = some o → (nth 0 rest).map (·.isPunct .arrow) = .ok b →
          (nth 0 rest₂).map (·.isPunct .arrow) = .ok b := by
        intro hnest h
        obtain ⟨next, hnext, rfl⟩ := exists_of_map h
        rw [(hrest o hnest).nth_zero hnext]
        rfl
      simp only [parametersAhead, Token.moved_kind] at hb ⊢
      split at hb
      · rename_i hkind
        exact hname (by rw [hkind]; rfl) hb
      · rename_i hkind
        exact hname (by rw [hkind]; rfl) hb
      · rename_i hkind
        obtain ⟨lastEnd, st', hcrosses, hlt⟩ := henters t rfl (by rw [Token.isPunct, hkind]; rfl)
        cases hcrosses with
        | refl => exact absurd hlt (Nat.lt_irrefl _)
        | @step _ r _ _ _ _ _ nest more =>
            obtain rfl : r = .paren :: o := by
              rw [hkind] at nest
              exact (Option.some.inj nest).symm
            obtain ⟨after, after₂, hafter, hafter₂, htwin⟩ := afterParens_twin (σ := []) more rfl (hrest _ nest)
            have hopen : afterParens 0 (.cons t rest) = .ok (some after) := by
              rw [afterParens, hkind]
              exact hafter
            have hopen₂ : afterParens 0 (.cons (t.moved d) rest₂) = .ok (some after₂) := by
              rw [afterParens, Token.moved_kind, hkind]
              exact hafter₂
            rw [hopen] at hb
            rw [hopen₂]
            obtain ⟨next, hnext, hb⟩ := exists_of_target_bind (x := nth 0 after) hb
            show (nth 0 after₂ >>= _) = _
            rw [htwin.nth_zero hnext]
            exact hb
      · exact hb

/-- The word and a parenthesis behind it, which may begin an arrow function or a call. -/
def AsyncParen (t : Token) (s : Stream) : Prop := Head t s ∧ ∃ t', nth 1 s = .ok t' ∧ t'.isPunct .openParen = true

theorem arrowAhead_twin {st st' : State} {s₂ : Stream} {b : Bool} (htwin : Twin d o st.stream s₂)
    (hb : arrowAhead st.stream = .ok b) (hcrosses : Crosses o st o st') (hlt : st'.stream.length < st.stream.length)
    (hasync : ∀ t, t.isKeyword .asyncWord = true → AsyncParen t st.stream → st'.stream.length + 1 < st.stream.length) :
    arrowAhead s₂ = .ok b := by
  obtain ⟨s, lastEnd⟩ := st
  cases s with
  | failed fault => cases hb
  | done t =>
      obtain ⟨-, rfl⟩ := htwin
      exact hb
  | cons t rest =>
      have hwhole := htwin
      obtain ⟨rest₂, rfl, hrest⟩ := htwin
      simp only [arrowAhead] at hb ⊢
      have hsame : (t.moved d).isKeyword .asyncWord = t.isKeyword .asyncWord := rfl
      by_cases hword : t.isKeyword .asyncWord = true
      · rw [if_pos hword] at hb
        rw [if_pos (hsame.trans hword)]
        have hkind := kind_of_isKeyword hword
        have hnest : t.kind.nest o = some o := by rw [hkind]; rfl
        have hinner := hrest o hnest
        obtain ⟨next, hnext, hb⟩ := exists_of_target_bind hb
        have henters : ∀ t', Head t' rest → t'.isPunct .openParen = true → Enters o rest := by
          intro t' ht' hparen
          have hcount := hasync t hword ⟨rfl, t', ht', hparen⟩
          cases hcrosses with
          | refl => exact absurd hlt (Nat.lt_irrefl _)
          | @step _ r _ _ _ _ _ nest more =>
              obtain rfl : r = o := Option.some.inj (nest.symm.trans hnest)
              exact ⟨t.span.stop, st', more, Nat.lt_of_succ_lt_succ hcount⟩
        rw [hinner.nth_zero hnext]
        show (if next.newlineBefore = true then _ else _) = _
        by_cases hnewline : next.newlineBefore = true
        · rw [if_pos hnewline] at hb ⊢
          exact hb
        · rw [if_neg hnewline] at hb ⊢
          rw [Token.moved_kind]
          split at hb
          · exact parametersAhead_twin hinner hb henters
          · exact parametersAhead_twin hinner hb henters
          · exact hb
          · exact hb
      · rw [if_neg hword] at hb
        rw [if_neg (hsame ▸ hword)]
        exact parametersAhead_twin hwhole hb fun _ _ _ => ⟨lastEnd, st', hcrosses, hlt⟩

/-! ## Calls of what has the name of the word -/

theorem chain_call_matches (hg : MatchingGrammar d n g g₂) (e : Expr) (hn : n < fuel₂) :
    Matches d (n + 1) 1 (HeadIs .openParen true) o o (Expr.moved d) (chain g e fuel) (chain g₂ (e.moved d) fuel₂) := by
  cases fuel₂ with
  | zero => exact absurd hn (Nat.not_lt_zero n)
  | succ fuel₂ =>
      cases fuel with
      | zero => exact .exhausted
      | succ fuel =>
          refine .peek_and fun t => ?_
          rw [Token.moved_kind]
          by_cases hparen : t.isPunct .openParen = true
          · simp only [kind_of_isPunct hparen]
            exact .enter (call_matches hg e false) fun e' => chain_matches hg e' (Nat.le_of_lt_succ hn)
          · intro _ _ _ _ hnext
            exact absurd (hnext.1 t hnext.2) hparen

section Async

variable (hg : MatchingGrammar d n g g₂) (hword : t.isKeyword .asyncWord = true)
include hg hword

theorem suffixed_async_matches :
    Matches d (n + 1) 2 (AsyncParen t) o o (Expr.moved d) (suffixed g) (suffixed g₂) := by
  have hkind := kind_of_isKeyword hword
  unfold suffixed primary
  rw [bind_assoc, bind_assoc]
  refine .peek_known (t := t) (fun _ hs => hs.1) ?_
  rw [Token.moved_kind]
  simp only [hkind, bind_assoc, pure_bind]
  refine .skip_known (m := n) (j := 1) (r := o) (isEof_of_kind_eq hkind nofun) (by rw [hkind]; rfl) (fun _ hs => hs.1) ?_
    (Nat.le_refl _) (Nat.le_refl _)
  have hparen : ∀ s, AsyncParen t (.cons t s) → HeadIs .openParen true s := by
    rintro s ⟨-, next, hnext, hparen⟩ t' ht'
    obtain rfl : t' = next := Except.ok.inj (ht'.symm.trans hnext)
    exact hparen
  refine Matches.next (.bound fun l m hm => ?_) hparen
  cases m with
  | zero => exact .zero
  | succ m =>
      have hless := hg.le (Nat.le_of_succ_le hm)
      exact .enter (chain_call_matches hless _ (Nat.lt_succ_self m)) fun e => update_matches e

theorem unary_async_matches : Matches d (n + 1) 2 (AsyncParen t) o o (Expr.moved d) (unary g) (unary g₂) := by
  have hkind := kind_of_isKeyword hword
  refine .peek_known (t := t) (fun _ hs => hs.1) ?_
  rw [Token.moved_kind, hkind]
  refine .ite Iff.rfl (fun hawait => ?_) fun _ => suffixed_async_matches hg hword
  rw [Token.isKeyword, hkind] at hawait
  cases hawait

theorem binary_async_matches (least : Nat) :
    Matches d (n + 1) 2 (AsyncParen t) o o (Expr.moved d) (binary g least) (binary g₂ least) := by
  refine .seq (m := n) (j := 0) (unary_async_matches hg hword) (fun e => ?_) (Nat.le_succ _) (Nat.le_refl _)
  exact .bound fun _ m hm => infixFrom_matches (hg.le hm) least e (Nat.le_refl m)

theorem conditional_async_matches :
    Matches d (n + 1) 2 (AsyncParen t) o o (Expr.moved d) (conditional g) (conditional g₂) :=
  .seq (m := n) (j := 0) (binary_async_matches hg hword 1) (fun test => branches_matches hg test) (Nat.le_succ _) (Nat.le_refl _)

end Async

/-! ## Arrow functions and assignments -/

/-- What a body goes on with depends on its place only. -/
theorem arrowBody_matches (hg : MatchingGrammar d n g g₂) {k k₂ : ArrowBody → Parser Expr}
    (hk : ∀ body, Matches d n 0 AnyStream o o (Expr.moved d) (k body) (k₂ (body.moved d))) :
    Matches d n 0 N o o (Expr.moved d)
      (atPunct .openBrace >>= fun b => if b = true then ArrowBody.block <$> block g >>= k else
        ArrowBody.expr <$> g.assignment >>= k)
      (atPunct .openBrace >>= fun b => if b = true then ArrowBody.block <$> block g₂ >>= k₂ else
        ArrowBody.expr <$> g₂.assignment >>= k₂) := by
  refine .atPunct fun b => ?_
  cases b with
  | true =>
      have hblock : Matches d n 1 AnyStream o o (ArrowBody.moved d) (ArrowBody.block <$> block g) (ArrowBody.block <$> block g₂) :=
        .map ((block_matches hg).le (Nat.le_succ n)) fun _ => rfl
      exact Matches.any (.bind hblock.lax hk)
  | false =>
      have hexpr : Matches d n 1 AnyStream o o (ArrowBody.moved d) (ArrowBody.expr <$> g.assignment)
          (ArrowBody.expr <$> g₂.assignment) := .map (hg.assignment o) fun _ => rfl
      exact Matches.any (.bind hexpr.lax hk)

theorem arrowRest_matches (hg : MatchingGrammar d n g g₂) (start : Token) (isAsync : Bool) :
    Matches d (n + 1) 1 N o o (Expr.moved d) (arrowRest g start isAsync) (arrowRest g₂ (start.moved d) isAsync) := by
  have hrest : ∀ ps : List Pattern, Matches d n 0 AnyStream o o (Expr.moved d)
      (expectPunct .arrow >>= fun _ => atPunct .openBrace >>= fun b =>
        if b = true then ArrowBody.block <$> block g >>= fun body => spanFrom start.span >>=
          fun span => pure (Expr.arrow ps body isAsync span) else ArrowBody.expr <$> g.assignment >>= fun body =>
            spanFrom start.span >>= fun span => pure (Expr.arrow ps body isAsync span))
      (expectPunct .arrow >>= fun _ => atPunct .openBrace >>= fun b =>
        if b = true then ArrowBody.block <$> block g₂ >>= fun body => spanFrom (start.moved d).span >>=
          fun span => pure (Expr.arrow (ps.map (Pattern.moved d)) body isAsync span) else
            ArrowBody.expr <$> g₂.assignment >>= fun body => spanFrom (start.moved d).span >>=
              fun span => pure (Expr.arrow (ps.map (Pattern.moved d)) body isAsync span)) := by
    intro ps
    refine .expectPunct rfl fun _ => arrowBody_matches hg fun body => .spanFrom rfl fun span => .pure ?_
    simp [Expr.moved, movedPatterns_eq]
  refine .eatPunct_seq (r := .paren :: o) (m := n) rfl (.bind (params_matches hg) hrest) ?_ (Nat.le_refl _) (Nat.le_refl _)
  exact .enter bindingName_matches fun id => hrest [.ident id]

theorem arrow_matches (hg : MatchingGrammar d n g g₂) :
    Matches d (n + 1) 1 N o o (Expr.moved d) (arrow g) (arrow g₂) := by
  refine .peek fun start => .ite Iff.rfl (fun hword => ?_) fun _ => arrowRest_matches hg start false
  have hkind := kind_of_isKeyword hword
  have hnest : start.kind.nest o = some o := by rw [hkind]; rfl
  refine .peekNth_one (fun _ => id) ⟨o, hnest⟩ fun next => .ite Iff.rfl (fun _ => arrowRest_matches hg start false) fun _ => ?_
  refine Matches.next (.skip (isEof_of_kind_eq hkind nofun) hnest ?_) fun _ hs => hs.1
  exact ((arrowRest_matches hg start true).le (Nat.le_succ n)).lax

/-- The word in front of a parenthesis and the parenthesis are consumed. -/
theorem arrow_async_matches (hg : MatchingGrammar d n g g₂) (hword : t.isKeyword .asyncWord = true) :
    Matches d (n + 1) 2 (AsyncParen t) o o (Expr.moved d) (arrow g) (arrow g₂) := by
  have hkind := kind_of_isKeyword hword
  have hnest : t.kind.nest o = some o := by rw [hkind]; rfl
  refine .peek_known (t := t) (fun _ hs => hs.1) (.ite Iff.rfl (fun _ => ?_) fun h => absurd hword h)
  refine .peekNth_one (fun _ hs => hs.1) ⟨o, hnest⟩ fun next => .ite Iff.rfl (fun harrow => ?_) fun _ => ?_
  · rintro st st₂ - - ⟨⟨-, t', ht', hparen⟩, hnext⟩
    obtain rfl : t' = next := Except.ok.inj (ht'.symm.trans hnext)
    rw [Token.isPunct, kind_of_isPunct harrow] at hparen
    cases hparen
  · exact .skip_known (m := n) (j := 1) (isEof_of_kind_eq hkind nofun) hnest (fun _ hs => hs.1.1)
      ((arrowRest_matches hg t true).le (Nat.le_succ n)) (Nat.le_refl _) (Nat.le_refl _)

theorem assignment_matches (hg : MatchingGrammar d n g g₂) :
    Matches d (n + 1) 1 N o o (Expr.moved d) (assignment g) (assignment g₂) := by
  intro st st₂ habreast hlt _ a st' hrun
  obtain ⟨b, hb, hrun⟩ : ∃ b, arrowAhead st.stream = .ok b ∧
      (if b = true then arrow g else conditional g >>= assigned g) st = .ok (a, st') := by
    change (liftM (arrowAhead st.stream) >>= fun b =>
      if b = true then arrow g else conditional g >>= assigned g : Parser Expr) st = _ at hrun
    cases hahead : arrowAhead st.stream with
    | error fault =>
        rw [hahead] at hrun
        cases hrun
    | ok b =>
        rw [hahead] at hrun
        exact ⟨b, rfl, hrun⟩
  have hbranch : Matches d (n + 1) 1 AnyStream o o (Expr.moved d)
      (if b = true then arrow g else conditional g >>= assigned g)
      (if b = true then arrow g₂ else conditional g₂ >>= assigned g₂) :=
    .ite Iff.rfl (fun _ => arrow_matches hg) fun _ => .enter (conditional_matches hg) fun left => assigned_matches hg left
  obtain ⟨st₂', hrun₂, habreast', hcrosses, hcount, hcount₂⟩ := hbranch st st₂ habreast hlt trivial a st' hrun
  have hahead₂ : arrowAhead st₂.stream = .ok b := by
    refine arrowAhead_twin habreast.twin hb hcrosses (by omega) fun t hword hparen => ?_
    have hasync : Matches d (n + 1) 2 (AsyncParen t) o o (Expr.moved d)
        (if b = true then arrow g else conditional g >>= assigned g)
        (if b = true then arrow g₂ else conditional g₂ >>= assigned g₂) := by
      refine .ite Iff.rfl (fun _ => arrow_async_matches hg hword) fun _ => ?_
      exact .seq (m := n) (j := 0) (conditional_async_matches hg hword) (fun left => assigned_matches hg left)
        (Nat.le_succ _) (Nat.le_refl _)
    obtain ⟨-, -, -, -, hcount, -⟩ := hasync st st₂ habreast hlt hparen a st' hrun
    omega
  refine ⟨st₂', ?_, habreast', hcrosses, hcount, hcount₂⟩
  show (liftM (arrowAhead st₂.stream) >>= fun b =>
    if b = true then arrow g₂ else conditional g₂ >>= assigned g₂ : Parser Expr) st₂ = _
  rw [hahead₂]
  exact hrun₂

/-! ## Statements -/

theorem parenthesised_matches (hg : MatchingGrammar d n g g₂) :
    Matches d n 0 N o o (Expr.moved d) (parenthesised g) (parenthesised g₂) :=
  .expectPunct (r := .paren :: o) rfl fun _ => .bind (expression_matches hg).lax fun _ => .expectPunct rfl fun _ => .pure rfl

theorem declarator_matches (hg : MatchingGrammar d n g g₂) :
    Matches d n 1 N o o (Declarator.moved d) (declarator g) (declarator g₂) := by
  refine Matches.seq_of (j := 0) (hg.bindingTarget o).any (fun p hp => ?_) (Nat.le_succ n) (Nat.le_refl _)
  have hspan : (p.moved d).span = p.span.moved d := by
    obtain ⟨st, st', hrun⟩ := hp
    exact hg.placed st p st' hrun d
  have hdone : ∀ {N} init, Matches d n 0 N o o (Declarator.moved d)
      (spanFrom p.span >>= fun span => pure (Declarator.mk p init span))
      (spanFrom (p.moved d).span >>= fun span => pure (Declarator.mk (p.moved d) (init.map (Expr.moved d)) span)) :=
    fun init => .spanFrom hspan fun span => .pure (by simp [Declarator.moved, movedOption_eq])
  refine .eatPunct rfl ?_ (hdone none)
  have hinit : Matches d n 1 AnyStream o o (Option.map (Expr.moved d)) (some <$> g.assignment) (some <$> g₂.assignment) :=
    .map (hg.assignment o) fun _ => rfl
  exact .bind hinit.lax fun init => hdone init

theorem declarators_matches (hg : MatchingGrammar d n g g₂) (hn : n ≤ fuel₂) :
    Matches d n 0 N o o (List.map (Declarator.moved d)) (declarators g fuel) (declarators g₂ fuel₂) := by
  induction fuel₂ generalizing fuel N n with
  | zero =>
      obtain rfl : n = 0 := Nat.le_zero.1 hn
      exact .zero
  | succ fuel₂ ih =>
      cases fuel with
      | zero => exact .exhausted
      | succ fuel =>
          cases n with
          | zero => exact .zero
          | succ n =>
              refine Matches.lax (.enter (declarator_matches hg) fun x => .eatPunct rfl ?_ (.pure rfl))
              exact .bind (ih (hg.le (Nat.le_succ n)) (by omega)) fun ds => .pure rfl

theorem nest_of_declKind {kind : DeclKind} (h : declKind? t = some kind) (o : Nest) : t.kind.nest o = some o := by
  unfold declKind? at h
  split at h
  · rw [kind_of_isKeyword ‹_›]
    rfl
  · split at h
    · rw [kind_of_isKeyword ‹_›]
      rfl
    · split at h
      · rw [kind_of_isKeyword ‹_›]
        rfl
      · cases h

theorem varDecl_matches (hg : MatchingGrammar d n g g₂) (kind : DeclKind) (hend : t.isEof = false)
    (hnest : t.kind.nest o = some o) :
    Matches d (n + 1) 1 (Head t) o o (VarDecl.moved d) (varDecl g kind) (varDecl g₂ kind) := by
  refine .skip hend hnest (.bound fun l m hm => ?_)
  refine .bind (declarators_matches (hg.le hm) (Nat.le_refl m)) fun ds => .spanFrom rfl fun span => .pure ?_
  simp [VarDecl.moved, movedDeclarators_eq]

theorem optionalExpr_matches (hg : MatchingGrammar d n g g₂) (close : Punct) :
    Matches d n 0 N o o (Option.map (Expr.moved d)) (optionalExpr g close) (optionalExpr g₂ close) := by
  refine .atPunct fun b => ?_
  cases b with
  | true => exact .pure rfl
  | false => exact .bind (expression_matches hg).lax fun e => .pure rfl

theorem forInit_matches (hg : MatchingGrammar d n g g₂) :
    Matches d n 0 N o o (ForInit.moved d) (forInit g) (forInit g₂) := by
  refine .peek fun t => .ite Iff.rfl (fun _ => .pure rfl) fun _ => ?_
  have hsame : declKind? (t.moved d) = declKind? t := rfl
  rw [hsame]
  split
  · rename_i kind hkind
    have hdecl := varDecl_matches hg kind (isEof_of_declKind hkind) (nest_of_declKind hkind o)
    exact .bind (hdecl.le (Nat.le_succ n)).lax fun x => .pure rfl
  · exact .bind (expression_matches hg).lax fun e => .pure rfl

theorem forStmt_matches (hg : MatchingGrammar d n g g₂) (hend : t.isEof = false) (hnest : t.kind.nest o = some o) :
    Matches d (n + 1) 1 (Head t) o o (Stmt.moved d) (forStmt g) (forStmt g₂) := by
  refine .skip hend hnest (.expectPunct (r := .paren :: o) rfl fun _ => .bind (forInit_matches hg) fun init => ?_)
  refine .peek fun t' => ?_
  rw [Token.moved_kind]
  refine .ite Iff.rfl (fun _ => .fail) fun _ => ?_
  refine .expectPunct rfl fun _ => .bind (optionalExpr_matches hg .semicolon) fun test => ?_
  refine .expectPunct rfl fun _ => .bind (optionalExpr_matches hg .closeParen) fun update => ?_
  refine .expectPunct rfl fun _ => .bind (hg.statement o).lax fun body => .spanFrom rfl fun span => .pure ?_
  simp [Stmt.moved, movedOption_eq]

theorem returnStmt_matches (hg : MatchingGrammar d n g g₂) (hend : t.isEof = false) (hnest : t.kind.nest o = some o) :
    Matches d (n + 1) 1 (Head t) o o (Stmt.moved d) (returnStmt g) (returnStmt g₂) := by
  have hdone : ∀ arg, Matches d n 0 AnyStream o o (Stmt.moved d)
      (semicolon >>= fun _ => spanFrom t.span >>= fun span => pure (Stmt.return arg span))
      (semicolon >>= fun _ => spanFrom (t.moved d).span >>= fun span =>
        pure (Stmt.return (arg.map (Expr.moved d)) span)) :=
    fun arg => .bind semicolon_matches fun _ => .spanFrom rfl fun span => .pure (by simp [Stmt.moved, movedOption_eq])
  refine .skip hend hnest (.peek fun t' => .ite Iff.rfl (fun _ => (hdone none).any) fun _ => ?_)
  have harg : Matches d n 1 AnyStream o o (Option.map (Expr.moved d)) (some <$> expression g) (some <$> expression g₂) :=
    .map (expression_matches hg) fun _ => rfl
  exact Matches.any (.bind harg.lax hdone)

theorem wordStmt_matches (hend : t.isEof = false) (hnest : t.kind.nest o = some o) {stmt : Span → Stmt}
    (h : ∀ span : Span, (stmt span).moved d = stmt (span.moved d)) :
    Matches d (n + 1) 1 (Head t) o o (Stmt.moved d) (wordStmt stmt) (wordStmt stmt) :=
  .skip hend hnest (.bind semicolon_matches fun _ => .spanFrom rfl fun span => .pure (h span).symm)

theorem statement_matches (hg : MatchingGrammar d n g g₂) :
    Matches d (n + 1) 1 N o o (Stmt.moved d) (statement g) (statement g₂) := by
  refine .peek fun t => ?_
  have hplain : ∀ {N}, Matches d (n + 1) 1 N o o (Stmt.moved d)
      (sequence g (assignment g) >>= fun e => semicolon >>= fun _ => spanFrom t.span >>= fun span => pure (Stmt.expr e span))
      (sequence g₂ (assignment g₂) >>= fun e => semicolon >>= fun _ => spanFrom (t.moved d).span >>= fun span =>
        pure (Stmt.expr e span)) := by
    refine .first (sequence_matches hg (assignment_matches hg) (Nat.le_refl _)) fun e => ?_
    exact .bind semicolon_matches fun _ => .spanFrom rfl fun span => .pure rfl
  have hdeclare : ∀ kind, t.isEof = false → t.kind.nest o = some o → Matches d (n + 1) 1 (Head t) o o (Stmt.moved d)
      (varDecl g kind >>= fun x => semicolon >>= fun _ => spanFrom t.span >>= fun span => pure (Stmt.declare x span))
      (varDecl g₂ kind >>= fun x => semicolon >>= fun _ => spanFrom (t.moved d).span >>= fun span =>
        pure (Stmt.declare x span)) := by
    intro kind hend hnest
    refine .first (varDecl_matches hg kind hend hnest) fun x => ?_
    exact .bind semicolon_matches fun _ => .spanFrom rfl fun span => .pure rfl
  rw [Token.moved_kind]
  split
  · exact .first (block_matches hg) fun b => .pure rfl
  · rename_i hkind
    exact .skip (isEof_of_kind_eq hkind nofun) (by rw [hkind]; rfl) (.pure rfl)
  · rename_i hkind
    exact hdeclare _ (isEof_of_kind_eq hkind nofun) (by rw [hkind]; rfl)
  · rename_i hkind
    exact hdeclare _ (isEof_of_kind_eq hkind nofun) (by rw [hkind]; rfl)
  · rename_i hkind
    exact hdeclare _ (isEof_of_kind_eq hkind nofun) (by rw [hkind]; rfl)
  · rename_i hkind
    refine .skip (isEof_of_kind_eq hkind nofun) (by rw [hkind]; rfl) (.bind (parenthesised_matches hg) fun test => ?_)
    refine .bind (hg.statement o).lax fun yes => ?_
    have hno : Matches d n 1 AnyStream o o (Option.map (Stmt.moved d)) (some <$> g.statement) (some <$> g₂.statement) :=
      .map (hg.statement o) fun _ => rfl
    have hdone : ∀ no : Option Stmt, Matches d n 0 AnyStream o o (Stmt.moved d)
        (spanFrom t.span >>= fun span => pure (Stmt.cond test yes no span))
        (spanFrom (t.moved d).span >>= fun span =>
          pure (Stmt.cond (test.moved d) (yes.moved d) (no.map (Stmt.moved d)) span)) :=
      fun no => .spanFrom rfl fun span => .pure (by cases no <;> rfl)
    exact .eatKeyword (.bind hno.lax hdone) (hdone none)
  · rename_i hkind
    refine .skip (isEof_of_kind_eq hkind nofun) (by rw [hkind]; rfl) (.bind (parenthesised_matches hg) fun test => ?_)
    exact .bind (hg.statement o).lax fun body => .spanFrom rfl fun span => .pure rfl
  · rename_i hkind
    refine .skip (isEof_of_kind_eq hkind nofun) (by rw [hkind]; rfl) (.bind (hg.statement o).lax fun body => ?_)
    refine .eatKeyword (.bind (parenthesised_matches hg) fun test => ?_) .unexpected
    have hdone : ∀ {N}, Matches d n 0 N o o (Stmt.moved d)
        (spanFrom t.span >>= fun span => pure (Stmt.doWhile body test span))
        (spanFrom (t.moved d).span >>= fun span => pure (Stmt.doWhile (body.moved d) (test.moved d) span)) :=
      .spanFrom rfl fun span => .pure rfl
    exact .eatPunct rfl hdone hdone
  · rename_i hkind
    exact forStmt_matches hg (isEof_of_kind_eq hkind nofun) (by rw [hkind]; rfl)
  · rename_i hkind
    exact returnStmt_matches hg (isEof_of_kind_eq hkind nofun) (by rw [hkind]; rfl)
  · rename_i hkind
    exact wordStmt_matches (isEof_of_kind_eq hkind nofun) (by rw [hkind]; rfl) fun _ => rfl
  · rename_i hkind
    exact wordStmt_matches (isEof_of_kind_eq hkind nofun) (by rw [hkind]; rfl) fun _ => rfl
  · rename_i hkind
    exact wordStmt_matches (isEof_of_kind_eq hkind nofun) (by rw [hkind]; rfl) fun _ => rfl
  · rename_i hkind
    refine .peekNth_one (fun _ => id) ⟨o, by rw [hkind]; rfl⟩ fun next => .ite Iff.rfl (fun _ => hplain) fun _ => ?_
    exact .first ((functionDef_matches hg hkind).next fun _ hs => hs.1) fun fn => .pure rfl
  · exact hplain

/-! ## The grammar -/

theorem grammar_matches (d D n : Nat) : MatchingGrammar d n (grammar D) (grammar n) := by
  induction n generalizing D with
  | zero =>
      refine ⟨fun _ => .zero, fun _ _ => .zero, fun _ => .zero, fun _ => .zero, fun _ => .zero, ?_⟩
      cases D with
      | zero => exact nofun
      | succ D => exact bindingTarget_yields _
  | succ n ih =>
      cases D with
      | zero =>
          exact ⟨fun _ => .exhausted, fun _ _ => .exhausted, fun _ => .exhausted, fun _ => .exhausted, fun _ => .exhausted, nofun⟩
      | succ D =>
          have hg := ih D
          exact ⟨fun _ => assignment_matches hg, fun least _ => binary_matches hg least, fun _ => unary_matches hg,
            fun _ => statement_matches hg, fun _ => bindingTarget_matches hg, bindingTarget_yields _⟩

end FieldScript.Parse
