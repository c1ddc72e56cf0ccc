import FieldScript.Proofs.Parse.NamedParts
import FieldScript.Proofs.Parse.Twins

/-!
# Parsers side by side: patterns and expressions

For each parser it follows that it matches itself if the grammars that both sides recurse through do
(`MatchingGrammar`). On the two sides the same parser runs with different bounds, and its trees are at different places.
-/

namespace FieldScript

namespace Parse

open Token (Kind Stream)

/-! ## Targets of assignments -/

mutual

theorem toPattern_moved (d : Nat) (e : Expr) {p : Pattern} (h : toPattern e = .ok p) :
    toPattern (e.moved d) = .ok (p.moved d) := by
  match e with
  | .identifier _ _ | .member _ _ false _ =>
      cases h
      rfl
  | .array is span =>
      obtain ⟨ps, hps, rfl⟩ := exists_of_map h
      show (itemsToPatterns (movedItems d is)).map _ = _
      rw [itemsToPatterns_moved d is hps]
      rfl
  | .object ps span =>
      obtain ⟨qs, hqs, rfl⟩ := exists_of_map h
      show (propsToPatterns (movedProperties d ps)).map _ = _
      rw [propsToPatterns_moved d ps hqs]
      rfl
  | .member _ _ true _ | .literal _ _ | .template _ _ _ | .call _ _ _ _ | .arrow _ _ _ _ | .function _ | .this _
  | .await _ _ | .unary _ _ _ | .update _ _ _ _ | .binary _ _ _ _ | .logical _ _ _ _ | .conditional _ _ _ _
  | .assign _ _ _ _ | .sequence _ _ => cases h
termination_by structural e

theorem toElement_moved (d : Nat) (e : Expr) {p : Pattern} (h : toElement e = .ok p) :
    toElement (e.moved d) = .ok (p.moved d) := by
  match e with
  | .assign .assign _ _ _ | .identifier _ _ | .member _ _ false _ =>
      cases h
      rfl
  | .array is span =>
      obtain ⟨ps, hps, rfl⟩ := exists_of_map h
      show (itemsToPatterns (movedItems d is)).map _ = _
      rw [itemsToPatterns_moved d is hps]
      rfl
  | .object ps span =>
      obtain ⟨qs, hqs, rfl⟩ := exists_of_map h
      show (propsToPatterns (movedProperties d ps)).map _ = _
      rw [propsToPatterns_moved d ps hqs]
      rfl
  | .member _ _ true _ | .literal _ _ | .template _ _ _ | .call _ _ _ _ | .arrow _ _ _ _ | .function _ | .this _
  | .await _ _ | .unary _ _ _ | .update _ _ _ _ | .binary _ _ _ _ | .logical _ _ _ _ | .conditional _ _ _ _
  | .assign (.binary _) _ _ _ | .assign (.logical _) _ _ _ | .sequence _ _ => cases h
termination_by structural e

theorem itemsToPatterns_moved (d : Nat) (is : List Item) {ps : List Pattern} (h : itemsToPatterns is = .ok ps) :
    itemsToPatterns (movedItems d is) = .ok (movedPatterns d ps) := by
  match is with
  | [] =>
      cases h
      rfl
  | .hole :: more =>
      obtain ⟨qs, hqs, ⟨⟩⟩ := exists_of_target_bind h
      show (itemsToPatterns (movedItems d more) >>= _) = _
      rw [itemsToPatterns_moved d more hqs]
      rfl
  | .spread e :: more =>
      obtain ⟨p, hp, h⟩ := exists_of_target_bind h
      obtain ⟨qs, hqs, ⟨⟩⟩ := exists_of_target_bind h
      show (toPattern (e.moved d) >>= fun p => itemsToPatterns (movedItems d more) >>= _) = _
      rw [toPattern_moved d e hp, itemsToPatterns_moved d more hqs]
      rfl
  | .expr e :: more =>
      obtain ⟨p, hp, h⟩ := exists_of_target_bind h
      obtain ⟨qs, hqs, ⟨⟩⟩ := exists_of_target_bind h
      show (toElement (e.moved d) >>= fun p => itemsToPatterns (movedItems d more) >>= _) = _
      rw [toElement_moved d e hp, itemsToPatterns_moved d more hqs]
      rfl
termination_by structural is

theorem propsToPatterns_moved (d : Nat) (ps : List Property) {qs : List PatternProp} (h : propsToPatterns ps = .ok qs) :
    propsToPatterns (movedProperties d ps) = .ok (movedPatternProps d qs) := by
  match ps with
  | [] =>
      cases h
      rfl
  | .spread e :: more =>
      obtain ⟨p, hp, h⟩ := exists_of_target_bind h
      obtain ⟨qs, hqs, ⟨⟩⟩ := exists_of_target_bind h
      show (toPattern (e.moved d) >>= fun p => propsToPatterns (movedProperties d more) >>= _) = _
      rw [toPattern_moved d e hp, propsToPatterns_moved d more hqs]
      rfl
  | .init k e shorthand span :: more =>
      obtain ⟨p, hp, h⟩ := exists_of_target_bind h
      obtain ⟨qs, hqs, ⟨⟩⟩ := exists_of_target_bind h
      show (toElement (e.moved d) >>= fun p => propsToPatterns (movedProperties d more) >>= _) = _
      rw [toElement_moved d e hp, propsToPatterns_moved d more hqs]
      rfl
termination_by structural ps

end

theorem toSimpleTarget_moved (d : Nat) {e : Expr} {p : Pattern} (h : toSimpleTarget e = .ok p) :
    toSimpleTarget (e.moved d) = .ok (p.moved d) := by
  unfold toSimpleTarget at h
  split at h
  · cases h
    rfl
  · cases h
    rfl
  · cases h

/-- What an expression is read as stands where the expression does. -/
theorem isPlaced_of_toPattern {e : Expr} {p : Pattern} (h : toPattern e = .ok p) : p.IsPlaced := by
  unfold toPattern at h
  split at h
  · cases h
    exact Pattern.isPlaced_ident _
  · cases h
    exact Pattern.isPlaced_member _
  · obtain ⟨ps, -, rfl⟩ := exists_of_map h
    exact Pattern.isPlaced_array _ _
  · obtain ⟨ps, -, rfl⟩ := exists_of_map h
    exact Pattern.isPlaced_object _ _
  · cases h

theorem isPlaced_of_toSimpleTarget {e : Expr} {p : Pattern} (h : toSimpleTarget e = .ok p) : p.IsPlaced := by
  unfold toSimpleTarget at h
  split at h
  · cases h
    exact Pattern.isPlaced_ident _
  · cases h
    exact Pattern.isPlaced_member _
  · cases h

/-! ## Grammars -/

/-- A parser whose results are as told. -/
def Yields {α : Type} (p : Parser α) (P : α → Prop) : Prop := ∀ st a st', p st = .ok (a, st') → P a

namespace Yields

variable {α β : Type} {P : β → Prop}

theorem pure {b : β} (h : P b) : Yields (Pure.pure b) P := by
  rintro _ _ _ ⟨⟩
  exact h

theorem bind {x : Parser α} {f : α → Parser β} (h : ∀ a, Yields (f a) P) : Yields (x >>= f) P := by
  intro st b st' hrun
  obtain ⟨a, mid, -, hrun'⟩ := exists_of_bind hrun
  exact h a mid b st' hrun'

end Yields

/-- Grammars whose parsers match below a number of tokens and consume a token each. -/
structure MatchingGrammar (d n : Nat) (g g₂ : Grammar) : Prop where
  assignment : ∀ o, Matches d n 1 AnyStream o o (Expr.moved d) g.assignment g₂.assignment
  binary : ∀ least o, Matches d n 1 AnyStream o o (Expr.moved d) (g.binary least) (g₂.binary least)
  unary : ∀ o, Matches d n 1 AnyStream o o (Expr.moved d) g.unary g₂.unary
  statement : ∀ o, Matches d n 1 AnyStream o o (Stmt.moved d) g.statement g₂.statement
  bindingTarget : ∀ o, Matches d n 1 AnyStream o o (Pattern.moved d) g.bindingTarget g₂.bindingTarget
  placed : Yields g.bindingTarget Pattern.IsPlaced

theorem MatchingGrammar.le {d n m : Nat} {g g₂ : Grammar} (hg : MatchingGrammar d n g g₂) (h : m ≤ n) :
    MatchingGrammar d m g g₂ :=
  ⟨fun o => (hg.assignment o).le h, fun least o => (hg.binary least o).le h, fun o => (hg.unary o).le h,
    fun o => (hg.statement o).le h, fun o => (hg.bindingTarget o).le h, hg.placed⟩

variable {d n m : Nat} {g g₂ : Grammar} {N : Stream → Prop} {o : Nest} {fuel fuel₂ : Nat} {t : Token}

open Matches (isEof_of_kind_eq kind_of_isPunct kind_of_isKeyword)

/-! ## Bindings -/

theorem key_matches (hg : MatchingGrammar d n g g₂) : Matches d n 1 N o o (Key.moved d) (key g) (key g₂) := by
  refine .peek fun t => ?_
  rw [Token.moved_kind]
  split
  · rename_i hkind
    refine .skip_first (r := .bracket :: o) (isEof_of_kind_eq hkind nofun) (by rw [hkind]; rfl) ?_
    exact .bind (hg.assignment _).lax fun e => .expectPunct rfl fun _ => .pure rfl
  · rename_i hkind
    exact .skip_first (isEof_of_kind_eq hkind nofun) (by rw [hkind]; rfl) (.pure rfl)
  · rename_i hkind
    exact .skip_first (isEof_of_kind_eq hkind nofun) (by rw [hkind]; rfl) (.pure rfl)
  · exact .first propertyName_matches fun id => .pure rfl

theorem bindingElement_matches (hg : MatchingGrammar d n g g₂) :
    Matches d n 1 N o o (Pattern.moved d) (bindingElement g) (bindingElement g₂) := by
  refine .first (hg.bindingTarget o).any fun p => .eatPunct rfl ?_ (.pure rfl)
  exact .bind (hg.assignment o).lax fun e => .pure rfl

theorem bindingOrRest_matches (hg : MatchingGrammar d n g g₂) :
    Matches d n 1 N o o (Pattern.moved d) (bindingOrRest g) (bindingOrRest g₂) :=
  .eatPunct rfl (.first (hg.bindingTarget o) fun _ => .pure rfl) (bindingElement_matches hg)

theorem patternProp_matches (hg : MatchingGrammar d n g g₂) :
    Matches d n 1 N o o (PatternProp.moved d) (patternProp g) (patternProp g₂) := by
  refine .eatPunct rfl (.first bindingName_matches fun id => .pure rfl) ?_
  refine .peek fun t => .first (key_matches hg) fun k => ?_
  refine .eatPunct rfl (.bind (bindingElement_matches hg).lax fun p => .pure rfl) ?_
  simp only [Bool.false_eq_true, if_false]
  cases k with
  | name id =>
      rw [Token.moved_kind]
      cases t.kind with
      | identifier name => exact .eatPunct rfl (.bind (hg.assignment o).lax fun e => .pure rfl) (.pure rfl)
      | _ => exact .fail
  | literal lit => exact .fail
  | computed e => exact .fail

theorem bindingTarget_matches (hg : MatchingGrammar d n g g₂) :
    Matches d (n + 1) 1 N o o (Pattern.moved d) (bindingTarget g) (bindingTarget g₂) := by
  refine .peek fun t => ?_
  rw [Token.moved_kind]
  split
  · rename_i hkind
    refine .skip (r := .bracket :: o) (isEof_of_kind_eq hkind nofun) (by rw [hkind]; rfl) (.bound fun l m hm => ?_)
    refine .bind (separatedWithHoles_matches rfl (bindingOrRest_matches (hg.le hm)) (Nat.le_refl m)) fun ps => ?_
    exact .expectPunct rfl fun close => .pure (by
      simp [Pattern.moved, movedPatterns_eq, Span.moved_merge])
  · rename_i hkind
    refine .skip (r := .brace :: o) (isEof_of_kind_eq hkind nofun) (by rw [hkind]; rfl) (.bound fun l m hm => ?_)
    refine .bind (separated_matches (patternProp_matches (hg.le hm)) (Nat.le_refl m)) fun ps => ?_
    exact .expectPunct rfl fun close => .pure (by
      simp [Pattern.moved, movedPatternProps_eq, Span.moved_merge])
  · exact .first bindingName_matches fun id => .pure rfl

theorem bindingTarget_yields (g : Grammar) : Yields (bindingTarget g) Pattern.IsPlaced := by
  refine .bind fun t => ?_
  split
  · exact .bind fun _ => .bind fun _ => .bind fun _ => .bind fun _ => .pure (Pattern.isPlaced_array _ _)
  · exact .bind fun _ => .bind fun _ => .bind fun _ => .bind fun _ => .pure (Pattern.isPlaced_object _ _)
  · exact .bind fun _ => .pure (Pattern.isPlaced_ident _)

theorem params_matches (hg : MatchingGrammar d n g g₂) :
    Matches d n 0 N (.paren :: o) o (List.map (Pattern.moved d)) (params g) (params g₂) := by
  refine .bound fun l m hm => ?_
  refine .bind (separated_matches (bindingOrRest_matches (hg.le hm)) (Nat.le_refl m)) fun ps => ?_
  exact .expectPunct rfl fun _ => .pure rfl

/-! ## Expressions without operators -/

theorem moreAssignments_matches (hg : MatchingGrammar d n g g₂) (hn : n ≤ fuel₂) :
    Matches d n 0 N o o (List.map (Expr.moved d)) (moreAssignments g fuel) (moreAssignments g₂ fuel₂) := by
  induction fuel₂ generalizing fuel N n with
  | zero =>
      obtain rfl : n = 0 := Nat.le_zero.1 hn
      exact .zero
  | succ fuel₂ ih =>
      cases fuel with
      | zero => exact .exhausted
      | succ fuel =>
          cases n with
          | zero => exact .zero
          | succ n =>
              refine .eatPunct rfl (Matches.lax (.enter (hg.assignment o) fun e => ?_)) (.pure rfl)
              exact .bind (ih (hg.le (Nat.le_succ n)) (by omega)) fun es => .pure rfl

/-- One parser in front may have one token more than the grammar. -/
theorem sequence_matches (hg : MatchingGrammar d n g g₂) {first first₂ : Parser Expr}
    (hfirst : Matches d m 1 N o o (Expr.moved d) first first₂) (hm : m ≤ n + 1) :
    Matches d m 1 N o o (Expr.moved d) (sequence g first) (sequence g₂ first₂) := by
  refine hfirst.seq (j := 0) (fun e => .atPunct fun b => ?_) hm (Nat.le_refl _)
  cases b with
  | false => exact .pure rfl
  | true =>
      refine .bound fun l m hm => .bind (moreAssignments_matches (hg.le hm) (Nat.le_refl m)) fun es => .pure ?_
      simp [Expr.moved, movedExprs_eq, Expr.span_moved, Span.moved_merge]

theorem expression_matches (hg : MatchingGrammar d n g g₂) :
    Matches d n 1 N o o (Expr.moved d) (expression g) (expression g₂) :=
  sequence_matches hg (hg.assignment o).any (Nat.le_succ n)

theorem item_matches (hg : MatchingGrammar d n g g₂) : Matches d n 1 N o o (Item.moved d) (item g) (item g₂) :=
  .eatPunct rfl (.first (hg.assignment o) fun _ => .pure rfl) (.first (hg.assignment o).any fun _ => .pure rfl)

theorem templateRest_matches (hg : MatchingGrammar d n g g₂) (start : Span) (parts : List TemplatePart) (es : List Expr)
    (hn : n ≤ fuel₂) : Matches d n 0 N (.substitution :: o) o (Expr.moved d) (templateRest g start parts es fuel)
      (templateRest g₂ (start.moved d) parts (es.map (Expr.moved d)) fuel₂) := by
  induction fuel₂ generalizing fuel N n parts es with
  | zero =>
      obtain rfl : n = 0 := Nat.le_zero.1 hn
      exact .zero
  | succ fuel₂ ih =>
      cases fuel with
      | zero => exact .exhausted
      | succ fuel =>
          cases n with
          | zero => exact .zero
          | succ n =>
              refine Matches.lax (.enter (expression_matches hg) fun e => .advance_head fun t => ?_)
              cases hkind : t.kind with
              | templateMiddle part =>
                  refine Matches.lax (.skip_first (r := .substitution :: o) (isEof_of_kind_eq hkind nofun)
                    (by rw [hkind]; rfl) ?_)
                  simp only [hkind, Token.moved_kind]
                  exact ih (hg.le (Nat.le_succ n)) (part :: parts) (e :: es) (by omega)
              | templateTail part =>
                  refine Matches.lax (.skip_first (r := o) (isEof_of_kind_eq hkind nofun) (by rw [hkind]; rfl) ?_)
                  simp only [hkind, Token.moved_kind]
                  refine .pure ?_
                  simp [Expr.moved, movedExprs_eq, Span.moved_merge]
              | _ => exact .advance_fails fun _ _ _ hrun => by simp only [hkind] at hrun; cases hrun

theorem property_matches (hg : MatchingGrammar d n g g₂) :
    Matches d n 1 N o o (Property.moved d) (property g) (property g₂) := by
  refine .peek fun t => .ite Iff.rfl (fun hmark => ?_) fun _ => ?_
  · have hkind := kind_of_isPunct hmark
    refine .skip_first (r := o) (isEof_of_kind_eq hkind nofun) (by rw [hkind]; rfl) ?_
    exact .bind (hg.assignment o).lax fun _ => .pure rfl
  · refine .first (key_matches hg) fun k => .eatPunct rfl (.bind (hg.assignment o).lax fun e => .pure ?_) ?_
    · rw [Property.moved, Span.moved_merge, ← Expr.span_moved]
      rfl
    · refine .peek fun next => .ite Iff.rfl (fun _ => .fail) fun _ => ?_
      cases k with
      | name id =>
          rw [Token.moved_kind]
          cases t.kind with
          | identifier name => exact .pure rfl
          | _ => exact .unexpected
      | literal lit => exact .unexpected
      | computed e => exact .unexpected

theorem statements_matches (hg : MatchingGrammar d n g g₂) (hn : n ≤ fuel₂) :
    Matches d n 0 N o o (List.map (Stmt.moved d)) (statements g fuel) (statements g₂ fuel₂) := by
  induction fuel₂ generalizing fuel N n with
  | zero =>
      obtain rfl : n = 0 := Nat.le_zero.1 hn
      exact .zero
  | succ fuel₂ ih =>
      cases fuel with
      | zero => exact .exhausted
      | succ fuel =>
          cases n with
          | zero => exact .zero
          | succ n =>
              refine .peek fun t => .ite Iff.rfl (fun _ => .pure rfl) fun _ => ?_
              refine .ite Iff.rfl (fun _ => .unexpected) fun _ => ?_
              refine Matches.lax (.enter (hg.statement o).any fun s => ?_)
              exact .bind (ih (hg.le (Nat.le_succ n)) (by omega)) fun _ => .pure rfl

theorem block_matches (hg : MatchingGrammar d n g g₂) :
    Matches d (n + 1) 1 N o o (Block.moved d) (block g) (block g₂) := by
  refine .expectPunct_enter (r := .brace :: o) rfl fun start => .bound fun l m hm => ?_
  refine .bind (statements_matches (hg.le hm) (Nat.le_refl m)) fun ss => .expectPunct rfl fun close => .pure ?_
  simp [Block.moved, movedStmts_eq, Span.moved_merge]

theorem functionDef_matches (hg : MatchingGrammar d n g g₂) (hword : t.kind = .keyword .functionWord) :
    Matches d (n + 1) 1 (Head t) o o (FunctionDef.moved d) (functionDef g) (functionDef g₂) := by
  have hrest : ∀ (name : Option Ident) (start : Token), Matches d n 0 AnyStream o o (FunctionDef.moved d)
      (expectPunct .openParen >>= fun _ => params g >>= fun ps => block g >>= fun body =>
        pure (FunctionDef.mk name ps body (start.span.merge body.span)))
      (expectPunct .openParen >>= fun _ => params g₂ >>= fun ps => block g₂ >>= fun body =>
        pure (FunctionDef.mk (name.map (Ident.moved d)) ps body ((start.moved d).span.merge body.span))) := by
    intro name start
    refine .expectPunct (r := .paren :: o) rfl fun _ => .bind (params_matches hg) fun ps => ?_
    refine .bind ((block_matches hg).le (Nat.le_succ n)).lax fun body => .pure ?_
    simp [FunctionDef.moved, movedPatterns_eq, Span.moved_merge, Block.span_moved]
  refine .skip (r := o) (isEof_of_kind_eq hword nofun) (by rw [hword]; rfl) (.atPunct fun b => ?_)
  cases b with
  | true => exact (hrest none t).any
  | false =>
      have hname : ∀ {N}, Matches d n 1 N o o (Option.map (Ident.moved d)) (some <$> bindingName) (some <$> bindingName) :=
        .map bindingName_matches fun _ => rfl
      exact .bind hname.lax fun name => hrest name t

theorem primary_matches (hg : MatchingGrammar d n g g₂) :
    Matches d (n + 1) 1 N o o (Expr.moved d) (primary g) (primary g₂) := by
  refine .peek fun t => ?_
  have hleaf : ∀ e : Expr, t.isEof = false → t.kind.nest o = some o → Matches d (n + 1) 1 (Head t) o o (Expr.moved d)
      (advance >>= fun _ => pure e) (advance >>= fun _ => pure (e.moved d)) :=
    fun e hend hnest => .skip hend hnest (.pure rfl)
  rw [Token.moved_kind]
  split
  · rename_i name hkind
    exact hleaf (.identifier name t.span) (isEof_of_kind_eq hkind nofun) (by rw [hkind]; rfl)
  · rename_i hkind
    exact hleaf (.identifier "async" t.span) (isEof_of_kind_eq hkind nofun) (by rw [hkind]; rfl)
  · rename_i x hkind
    exact hleaf (.literal ⟨.number x, t.text⟩ t.span) (isEof_of_kind_eq hkind nofun) (by rw [hkind]; rfl)
  · rename_i s hkind
    exact hleaf (.literal ⟨.string s, t.text⟩ t.span) (isEof_of_kind_eq hkind nofun) (by rw [hkind]; rfl)
  · rename_i hkind
    exact hleaf (.literal ⟨.bool true, t.text⟩ t.span) (isEof_of_kind_eq hkind nofun) (by rw [hkind]; rfl)
  · rename_i hkind
    exact hleaf (.literal ⟨.bool false, t.text⟩ t.span) (isEof_of_kind_eq hkind nofun) (by rw [hkind]; rfl)
  · rename_i hkind
    exact hleaf (.literal ⟨.null, t.text⟩ t.span) (isEof_of_kind_eq hkind nofun) (by rw [hkind]; rfl)
  · rename_i hkind
    exact hleaf (.this t.span) (isEof_of_kind_eq hkind nofun) (by rw [hkind]; rfl)
  · rename_i hkind
    exact .first (functionDef_matches hg hkind) fun _ => .pure rfl
  · rename_i part hkind
    exact hleaf (.template [part] [] t.span) (isEof_of_kind_eq hkind nofun) (by rw [hkind]; rfl)
  · rename_i part hkind
    refine .skip (r := .substitution :: o) (isEof_of_kind_eq hkind nofun) (by rw [hkind]; rfl) (.bound fun l m hm => ?_)
    exact templateRest_matches (hg.le hm) t.span [part] [] (Nat.le_refl m)
  · rename_i hkind
    refine .skip (r := .paren :: o) (isEof_of_kind_eq hkind nofun) (by rw [hkind]; rfl) ?_
    exact .bind (expression_matches hg).lax fun _ => .expectPunct rfl fun _ => .pure rfl
  · rename_i hkind
    refine .skip (r := .bracket :: o) (isEof_of_kind_eq hkind nofun) (by rw [hkind]; rfl) (.bound fun l m hm => ?_)
    refine .bind (separatedWithHoles_matches rfl (item_matches (hg.le hm)) (Nat.le_refl m)) fun is => ?_
    exact .expectPunct rfl fun close => .pure (by simp [Expr.moved, movedItems_eq, Span.moved_merge])
  · rename_i hkind
    refine .skip (r := .brace :: o) (isEof_of_kind_eq hkind nofun) (by rw [hkind]; rfl) (.bound fun l m hm => ?_)
    refine .bind (separated_matches (property_matches (hg.le hm)) (Nat.le_refl m)) fun ps => ?_
    exact .expectPunct rfl fun close => .pure (by simp [Expr.moved, movedProperties_eq, Span.moved_merge])
  · exact .unexpected

/-! ## Chains -/

theorem member_matches (object : Expr) (k : Key) (optional : Bool) :
    Matches d n 0 N o o (Expr.moved d) (member object k optional) (member (object.moved d) (k.moved d) optional) :=
  .spanFrom (object.span_moved d) fun _ => .pure rfl

theorem computedMember_matches (hg : MatchingGrammar d n g g₂) (object : Expr) (optional : Bool) :
    Matches d n 0 N (.bracket :: o) o (Expr.moved d) (computedMember g object optional)
      (computedMember g₂ (object.moved d) optional) :=
  .bind (expression_matches hg).lax fun e => .expectPunct rfl fun _ => member_matches object (.computed e) optional

theorem call_matches (hg : MatchingGrammar d n g g₂) (callee : Expr) (optional : Bool) :
    Matches d (n + 1) 1 N o o (Expr.moved d) (call g callee optional) (call g₂ (callee.moved d) optional) := by
  refine .expectPunct_enter (r := .paren :: o) rfl fun _ => .bound fun l m hm => ?_
  refine .bind (separated_matches (item_matches (hg.le hm)) (Nat.le_refl m)) fun args => .expectPunct rfl fun _ => ?_
  exact .spanFrom (callee.span_moved d) fun _ => .pure (by simp [Expr.moved, movedItems_eq])

theorem chain_matches (hg : MatchingGrammar d n g g₂) (e : Expr) (hn : n ≤ fuel₂) :
    Matches d n 0 N o o (Expr.moved d) (chain g e fuel) (chain g₂ (e.moved d) fuel₂) := by
  induction fuel₂ generalizing fuel N n e with
  | zero =>
      obtain rfl : n = 0 := Nat.le_zero.1 hn
      exact .zero
  | succ fuel₂ ih =>
      cases fuel with
      | zero => exact .exhausted
      | succ fuel =>
          cases n with
          | zero => exact .zero
          | succ n =>
              have hless := hg.le (Nat.le_succ n)
              have hmore : ∀ {N : Stream → Prop} (e : Expr),
                  Matches d n 0 N o o (Expr.moved d) (chain g e fuel) (chain g₂ (e.moved d) fuel₂) :=
                fun e => ih hless e (by omega)
              refine .peek fun t => ?_
              rw [Token.moved_kind]
              split
              · rename_i hkind
                refine Matches.lax (.skip (r := o) (isEof_of_kind_eq hkind nofun) (by rw [hkind]; rfl) ?_)
                refine .bind propertyName_matches.lax fun id => ?_
                exact .bind (member_matches e (.name id) false) fun e' => hmore e'
              · rename_i hkind
                refine Matches.lax (.skip (r := o) (isEof_of_kind_eq hkind nofun) (by rw [hkind]; rfl) ?_)
                refine .atPunct fun b => ?_
                cases b with
                | true =>
                    refine .eatPunct_none (fun s hs t ht => ?_) ?_
                    · unfold Token.isPunct
                      rw [kind_of_isPunct (hs.2 t ht)]
                      rfl
                    · exact .bind ((call_matches hless e true).le (Nat.le_succ n)).lax fun e' => hmore e'
                | false =>
                    refine .eatPunct (r := .bracket :: o) rfl ?_ ?_
                    · exact .bind (computedMember_matches hless e true) fun e' => hmore e'
                    · refine .bind propertyName_matches.lax fun id => ?_
                      exact .bind (member_matches e (.name id) true) fun e' => hmore e'
              · rename_i hkind
                refine Matches.lax (.skip (r := .bracket :: o) (isEof_of_kind_eq hkind nofun) (by rw [hkind]; rfl) ?_)
                exact .bind (computedMember_matches hless e false) fun e' => hmore e'
              · exact Matches.lax (.enter (call_matches hless e false) fun e' => hmore e')
              · exact .fail
              · exact .fail
              · exact .pure rfl

end Parse
end FieldScript
