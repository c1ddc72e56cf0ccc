import FieldScript.Proofs.Parse.Covers
import FieldScript.Proofs.Parse.Fenced
import FieldScript.Proofs.Parse.Named

/-!
# Spans of trees that are read

The spans of a tree that is read are laid in the part of the text that its tokens cover. For each parser this follows if
it holds of the grammar that the parser recurses through (`CoveringGrammar`). A target that is read as an expression
first keeps the spans that are known of the expression (`toPattern_laid`).

The result is `exprAt_laid`: what is read from a source is laid between the offset at which reading starts and the one
at which it stops, and every name and every literal is the text of its span.
-/

namespace FieldScript.Parse

open Token (Kind Stream)

/-- A grammar whose trees have their spans laid in the parts of the text that they cover. -/
structure CoveringGrammar (I : Ident → Prop) (g : Grammar) : Prop where
  assignment : ∀ lo, Covers I AnyToken lo lo g.assignment fun e hi => LaidRow I lo hi e.spans
  binary : ∀ least lo, Covers I AnyToken lo lo (g.binary least) fun e hi => LaidRow I lo hi e.spans
  unary : ∀ lo, Covers I AnyToken lo lo g.unary fun e hi => LaidRow I lo hi e.spans
  statement : ∀ lo, Covers I AnyToken lo lo g.statement fun s hi => LaidRow I lo hi s.spans
  bindingTarget : ∀ lo, Covers I AnyToken lo lo g.bindingTarget fun p hi => LaidRow I lo hi p.spans

variable {I : Ident → Prop} {g : Grammar} {N : Token → Prop} {start lo mid fuel : Nat} {t : Token} {e : Expr}

/-! ## Targets -/

mutual

theorem toPattern_laid (e : Expr) {p : Pattern} {lo hi : Nat} (h : toPattern e = .ok p) (he : LaidRow I lo hi e.spans) :
    LaidRow I lo hi p.spans := by
  match e with
  | .identifier _ _ =>
      cases h
      exact he
  | .member _ _ false _ =>
      cases h
      exact .node (Expr.placed he).within (Expr.placed he).row
  | .array is _ =>
      obtain ⟨ps, hps, rfl⟩ := exists_of_map h
      obtain ⟨hspan, hrow⟩ := LaidRow.of_singleton he
      exact .node hspan (itemsToPatterns_laid is hps hrow)
  | .object ps _ =>
      obtain ⟨qs, hqs, rfl⟩ := exists_of_map h
      obtain ⟨hspan, hrow⟩ := LaidRow.of_singleton he
      exact .node hspan (propsToPatterns_laid ps hqs hrow)
  | .member _ _ true _ | .literal _ _ | .template _ _ _ | .call _ _ _ _ | .arrow _ _ _ _ | .function _ | .this _
  | .await _ _ | .unary _ _ _ | .update _ _ _ _ | .binary _ _ _ _ | .logical _ _ _ _ | .conditional _ _ _ _
  | .assign _ _ _ _ | .sequence _ _ => cases h
termination_by structural e

theorem toElement_laid (e : Expr) {p : Pattern} {lo hi : Nat} (h : toElement e = .ok p) (he : LaidRow I lo hi e.spans) :
    LaidRow I lo hi p.spans := by
  match e with
  | .assign .assign target value _ =>
      cases h
      obtain ⟨hspan, hrow⟩ := LaidRow.of_singleton he
      obtain ⟨mid, htarget, hvalue⟩ := hrow.of_append
      have hjoin := Placed.join_placed (Pattern.placed htarget) (Nat.le_refl _) (Expr.placed hvalue)
      exact hjoin.mono hspan.start hspan.stop
  | .identifier _ _ =>
      cases h
      exact he
  | .member _ _ false _ =>
      cases h
      exact .node (Expr.placed he).within (Expr.placed he).row
  | .array is _ =>
      obtain ⟨ps, hps, rfl⟩ := exists_of_map h
      obtain ⟨hspan, hrow⟩ := LaidRow.of_singleton he
      exact .node hspan (itemsToPatterns_laid is hps hrow)
  | .object ps _ =>
      obtain ⟨qs, hqs, rfl⟩ := exists_of_map h
      obtain ⟨hspan, hrow⟩ := LaidRow.of_singleton he
      exact .node hspan (propsToPatterns_laid ps hqs hrow)
  | .member _ _ true _ | .literal _ _ | .template _ _ _ | .call _ _ _ _ | .arrow _ _ _ _ | .function _ | .this _
  | .await _ _ | .unary _ _ _ | .update _ _ _ _ | .binary _ _ _ _ | .logical _ _ _ _ | .conditional _ _ _ _
  | .assign (.binary _) _ _ _ | .assign (.logical _) _ _ _ | .sequence _ _ => cases h
termination_by structural e

theorem itemsToPatterns_laid (is : List Item) {ps : List Pattern} {lo hi : Nat} (h : itemsToPatterns is = .ok ps)
    (his : LaidRow I lo hi (spansOfItems is)) : LaidRow I lo hi (spansOfPatterns ps) := by
  match is with
  | [] =>
      cases h
      exact his
  | .hole :: more =>
      obtain ⟨qs, hqs, ⟨⟩⟩ := exists_of_target_bind h
      have hmore : LaidRow I lo hi (spansOfPatterns qs) := itemsToPatterns_laid more hqs his
      exact hmore
  | .spread e :: more =>
      obtain ⟨p, hp, h⟩ := exists_of_target_bind h
      obtain ⟨qs, hqs, ⟨⟩⟩ := exists_of_target_bind h
      obtain ⟨mid, he, hmore⟩ := LaidRow.of_append his
      have htarget := Pattern.placed (toPattern_laid e hp he)
      exact (LaidRow.node htarget.within htarget.row).append (itemsToPatterns_laid more hqs hmore)
  | .expr e :: more =>
      obtain ⟨p, hp, h⟩ := exists_of_target_bind h
      obtain ⟨qs, hqs, ⟨⟩⟩ := exists_of_target_bind h
      obtain ⟨mid, he, hmore⟩ := LaidRow.of_append his
      rw [spansOfPatterns_eq, List.flatMap_cons, ← spansOfPatterns_eq]
      exact (spansOfPatterns_laid (toElement_laid e hp he)).append (itemsToPatterns_laid more hqs hmore)
termination_by structural is

theorem propsToPatterns_laid (ps : List Property) {qs : List PatternProp} {lo hi : Nat}
    (h : propsToPatterns ps = .ok qs) (hps : LaidRow I lo hi (spansOfProperties ps)) :
    LaidRow I lo hi (spansOfPatternProps qs) := by
  match ps with
  | [] =>
      cases h
      exact hps
  | .spread e :: more =>
      obtain ⟨p, hp, h⟩ := exists_of_target_bind h
      obtain ⟨qs, hqs, ⟨⟩⟩ := exists_of_target_bind h
      obtain ⟨mid, he, hmore⟩ := LaidRow.of_append hps
      exact (toPattern_laid e hp he).append (propsToPatterns_laid more hqs hmore)
  | .init k e true span :: more =>
      obtain ⟨p, hp, h⟩ := exists_of_target_bind h
      obtain ⟨qs, hqs, ⟨⟩⟩ := exists_of_target_bind h
      obtain ⟨mid, ⟨hspan, hshared⟩, hmore⟩ := hps
      obtain ⟨hkey, hvalue⟩ := hshared.of_singleton
      have hboth := (LaidRow.shared hkey (toElement_laid e hp hvalue)).mono hspan.start hspan.stop
      exact hboth.append (propsToPatterns_laid more hqs hmore)
  | .init k e false span :: more =>
      obtain ⟨p, hp, h⟩ := exists_of_target_bind h
      obtain ⟨qs, hqs, ⟨⟩⟩ := exists_of_target_bind h
      obtain ⟨mid, ⟨hspan, hrow⟩, hmore⟩ := hps
      obtain ⟨cut, hkey, hvalue⟩ := hrow.of_append
      have hentry := (toElement_laid e hp (hvalue.mono (Nat.le_refl _) hspan.stop)).append
        (propsToPatterns_laid more hqs hmore)
      exact (hkey.mono hspan.start (Nat.le_refl _)).append hentry
termination_by structural ps

end

theorem toSimpleTarget_laid {p : Pattern} {hi : Nat} (h : toSimpleTarget e = .ok p) (he : LaidRow I lo hi e.spans) :
    LaidRow I lo hi p.spans := by
  unfold toSimpleTarget at h
  split at h
  · cases h
    exact he
  · cases h
    exact .node (Expr.placed he).within (Expr.placed he).row
  · cases h

/-! ## Bindings -/

/-- A key starts at the token at hand. One that is a name is this token. -/
theorem key_covers (hg : CoveringGrammar I g) : Covers I (· = t) lo lo (key g) fun k hi =>
    t.span.Within lo hi ∧ LaidRow I t.span.start hi k.spans ∧ ∀ id, k = .name id → id.span = t.span ∧ I id := by
  have hliteral : ∀ lit, t.isEof = false → Covers I (· = t) lo lo (advance >>= fun _ => pure (Key.literal lit)) fun k hi =>
      t.span.Within lo hi ∧ LaidRow I t.span.start hi k.spans ∧ ∀ id, k = .name id → id.span = t.span ∧ I id := by
    refine fun lit hend => .skip hend fun mid hat => .pure ⟨hat.within, ?_, nofun⟩
    exact .nil (hat.within.start_le)
  refine .peek fun t' ht' => ?_
  subst ht'
  split
  · rename_i hkind
    refine .skip (isEof_of_kind hkind rfl) fun mid hat => .bind (hg.assignment mid) fun e hi _ he => ?_
    refine .expectPunct fun _ hi' hclose => .pure ⟨?_, ?_, nofun⟩
    · exact hat.within.mono (Nat.le_refl _) (Nat.le_trans he.le (Nat.le_of_lt hclose.lt))
    · exact he.mono (hat.within.start_le) (Nat.le_of_lt hclose.lt)
  · rename_i hkind
    exact hliteral _ (isEof_of_kind hkind rfl)
  · rename_i hkind
    exact hliteral _ (isEof_of_kind hkind rfl)
  · refine .bind propertyName_covers fun id hi _ hid => .pure ?_
    obtain ⟨hspan, hword, t'', rfl, heq⟩ := hid
    rw [← heq]
    refine ⟨hspan, .word ⟨Nat.le_refl _, hspan.nonempty, hspan.stop⟩ hword, ?_⟩
    rintro _ ⟨⟩
    exact ⟨rfl, hword⟩

theorem bindingElement_covers (hg : CoveringGrammar I g) :
    Covers I N lo lo (bindingElement g) fun p hi => LaidRow I lo hi p.spans := by
  refine .bind (hg.bindingTarget lo).any fun p mid _ hp => .eatPunct (fun _ mid' _ hmark => ?_) (.pure hp)
  refine .bind (hg.assignment mid') fun e hi _ he => .pure ?_
  exact Placed.join_placed (Pattern.placed hp) (Nat.le_of_lt hmark.lt) (Expr.placed he)

theorem bindingOrRest_covers (hg : CoveringGrammar I g) :
    Covers I N lo lo (bindingOrRest g) fun p hi => LaidRow I lo hi (spansOfPatterns [p]) := by
  refine .eatPunct (fun _ mid _ hmark => ?_) ((bindingElement_covers hg).mono fun p hi _ hp => spansOfPatterns_laid hp)
  refine .bind (hg.bindingTarget mid) fun p hi _ hp => .pure ?_
  have htarget := Pattern.placed hp
  exact (LaidRow.node htarget.within htarget.row).mono (Nat.le_of_lt hmark.lt) (Nat.le_refl _)

theorem patternProp_covers (hg : CoveringGrammar I g) :
    Covers I N lo lo (patternProp g) fun p hi => LaidRow I lo hi (spansOfPatternProps [p]) := by
  refine .eatPunct (fun _ mid _ hmark => ?_) ?_
  · refine .bind bindingName_covers fun id hi _ hid => .pure ?_
    exact (LaidRow.word hid.1 hid.2.1).mono (Nat.le_of_lt hmark.lt) (Nat.le_refl _)
  refine .peek fun t _ => .bind (key_covers hg) fun k mid _ hk => ?_
  obtain ⟨hspan, hkey, hname⟩ := hk
  refine .eatPunct (fun _ mid' _ hcolon => ?_) ?_
  · refine .bind (bindingElement_covers hg) fun p hi _ hp => .pure ?_
    have hvalue := hp.mono (Nat.le_of_lt hcolon.lt) (Nat.le_refl _)
    exact (hkey.mono hspan.start (Nat.le_refl _)).append (hvalue.append (.nil (Nat.le_refl _)))
  · simp only [Bool.false_eq_true, if_false]
    split
    · rename_i id name hkind
      obtain ⟨hsame, hid⟩ := hname id rfl
      rw [← hsame] at hspan
      have hword : LaidRow I lo mid [.word id] := .word hspan hid
      refine .eatPunct (fun _ mid' _ hmark => ?_) (.pure (.shared hword hword))
      refine .bind (hg.assignment mid') fun e hi hle he => .pure (.shared ?_ ?_)
      · exact hword.mono (Nat.le_refl _) (Nat.le_trans (Nat.le_of_lt hmark.lt) he.le)
      · exact Placed.join_placed (.of_word _ hword) (Nat.le_of_lt hmark.lt) (Expr.placed he)
    · exact .fail
    · exact .fail

theorem bindingTarget_covers (hg : CoveringGrammar I g) :
    Covers I N lo lo (bindingTarget g) fun p hi => LaidRow I lo hi p.spans := by
  refine .peek fun t _ => ?_
  split
  · rename_i hkind
    refine .skip (isEof_of_kind hkind rfl) fun mid hopen => .bound fun n => ?_
    refine .bind (separatedWithHoles_covers rfl (fun _ => bindingOrRest_covers hg) n) fun ps mid' _ hps => ?_
    rw [← spansOfPatterns_eq] at hps
    exact .expectPunct fun _ _ hclose => .pure (.enclose hopen.within hps hclose)
  · rename_i hkind
    refine .skip (isEof_of_kind hkind rfl) fun mid hopen => .bound fun n => ?_
    refine .bind (separated_covers (fun _ => patternProp_covers hg) n) fun ps mid' _ hps => ?_
    rw [← spansOfPatternProps_eq] at hps
    exact .expectPunct fun _ _ hclose => .pure (.enclose hopen.within hps hclose)
  · exact .bind bindingName_covers fun id hi _ hid => .pure (.word hid.1 hid.2.1)

theorem params_covers (hg : CoveringGrammar I g) :
    Covers I N lo lo (params g) fun ps hi => LaidRow I lo hi (spansOfPatterns ps) := by
  refine .bound fun n => .bind (separated_covers (fun _ => bindingOrRest_covers hg) n) fun ps mid _ hps => ?_
  rw [← spansOfPatterns_eq] at hps
  exact .expectPunct fun _ _ hclose => .pure (hps.mono (Nat.le_refl _) (Nat.le_of_lt hclose.lt))

/-! ## Expressions without operators -/

/-- The row of the assignments, the one in front of them included, reaches to the end of the last one. -/
theorem moreAssignments_covers (hg : CoveringGrammar I g) (he : Placed I e.span e.spans lo mid) :
    Covers I N mid mid (moreAssignments g fuel) fun es hi => (es.getLastD e).span.Within lo hi ∧
      LaidRow I e.span.start (es.getLastD e).span.stop (e.spans ++ spansOfExprs es) := by
  induction fuel generalizing N lo mid e with
  | zero => exact .exhausted
  | succ fuel ih =>
      refine .eatPunct (fun _ mid' _ hcomma => ?_) (.pure ⟨he.within, ?_⟩)
      · refine .bind (hg.assignment mid') fun e' hi _ he' => .bind (ih (Expr.placed he')) fun es hi' _ hes => .pure ?_
        have hbefore : lo ≤ mid' := Nat.le_of_lt (Nat.lt_trans he.within.lt hcomma.lt)
        rw [List.getLastD_cons]
        refine ⟨hes.1.mono hbefore (Nat.le_refl _), (he.row.mono (Nat.le_refl _) he.within.stop).append ?_⟩
        exact hes.2.mono (Nat.le_trans (Nat.le_of_lt hcomma.lt) (Expr.placed he').within.start) (Nat.le_refl _)
      · rw [spansOfExprs, List.append_nil]
        exact he.row

theorem sequence_covers (hg : CoveringGrammar I g) {first : Parser Expr}
    (hfirst : Covers I N start lo first fun e hi => LaidRow I start hi e.spans) :
    Covers I N start lo (sequence g first) fun e hi => LaidRow I start hi e.spans := by
  refine .bind hfirst fun e mid _ he => .atPunct fun b => ?_
  have hplaced := Expr.placed he
  cases b with
  | false => exact .pure he
  | true =>
      refine .bound fun n => .bind (moreAssignments_covers hg hplaced) fun es hi hle hes => .pure ?_
      refine .around ((hplaced.within.mono (Nat.le_refl _) hle).merge hes.1) hes.2 ?_ ?_
      · exact Nat.min_le_left _ _
      · exact Nat.le_max_right _ _

theorem expression_covers (hg : CoveringGrammar I g) :
    Covers I N lo lo (expression g) fun e hi => LaidRow I lo hi e.spans :=
  sequence_covers hg (hg.assignment lo).any

theorem item_covers (hg : CoveringGrammar I g) :
    Covers I N lo lo (item g) fun i hi => LaidRow I lo hi (spansOfItems [i]) := by
  refine .eatPunct (fun _ mid _ hmark => ?_) (.bind (hg.assignment lo).any fun e hi _ he => .pure ?_)
  · refine .bind (hg.assignment mid) fun e hi _ he => .pure ?_
    exact (he.mono (Nat.le_of_lt hmark.lt) (Nat.le_refl _)).append (.nil (Nat.le_refl _))
  · exact he.append (.nil (Nat.le_refl _))

theorem templateRest_covers (hg : CoveringGrammar I g) {start : Span} {a : Nat} (hstart : start.Within lo a)
    (parts : List TemplatePart) {es : List Expr} (hes : LaidRow I a mid (spansOfExprs es.reverse)) :
    Covers I N mid mid (templateRest g start parts es fuel) fun e hi => LaidRow I lo hi e.spans := by
  induction fuel generalizing N mid parts es with
  | zero => exact .exhausted
  | succ fuel ih =>
      refine .bind (expression_covers hg) fun e mid' _ he => .advance fun t hi _ hle hat => ?_
      have hmore : LaidRow I a mid' (spansOfExprs (e :: es).reverse) := by
        rw [List.reverse_cons, spansOfExprs_eq, List.flatMap_append, ← spansOfExprs_eq, List.flatMap_singleton]
        exact hes.append he
      split
      · exact ih _ (hmore.mono (Nat.le_refl _) hle)
      · rename_i hkind
        exact .pure (.enclose hstart hmore (hat (isEof_of_kind hkind rfl)).within)
      · exact .fail

theorem property_covers (hg : CoveringGrammar I g) :
    Covers I N lo lo (property g) fun p hi => LaidRow I lo hi (spansOfProperties [p]) := by
  refine .peek fun t _ => ?_
  split
  · refine .advance fun _ mid _ hle _ => .bind (hg.assignment mid) fun e hi _ he => .pure ?_
    exact (he.mono hle (Nat.le_refl _)).append (.nil (Nat.le_refl _))
  · refine .bind (key_covers hg) fun k mid _ hk => ?_
    obtain ⟨hspan, hkey, hname⟩ := hk
    refine .eatPunct (fun _ mid' _ hcolon => ?_) (.peek fun next _ => ?_)
    · refine .bind (hg.assignment mid') fun value hi _ hvalue => .pure ?_
      exact Placed.join hspan hkey (Nat.le_of_lt hcolon.lt) (Expr.placed hvalue)
    · split
      · exact .fail
      · split
        · rename_i id name hkind
          obtain ⟨hsame, hid⟩ := hname id rfl
          have hword : LaidRow I t.span.start t.span.stop [.word id] := by
            rw [← hsame]
            rw [← hsame] at hspan
            exact .word ⟨Nat.le_refl _, hspan.nonempty, Nat.le_refl _⟩ hid
          exact .pure (.node hspan (.shared hword hword))
        · exact .unexpected

theorem statements_covers (hg : CoveringGrammar I g) :
    Covers I N lo lo (statements g fuel) fun ss hi => LaidRow I lo hi (spansOfStmts ss) := by
  induction fuel generalizing N lo with
  | zero => exact .exhausted
  | succ fuel ih =>
      refine .peek fun t _ => ?_
      split
      · exact .pure (Nat.le_refl _)
      · split
        · exact .unexpected
        · refine .bind (hg.statement lo).any fun s _ _ hs => .bind ih fun ss _ _ hss => .pure ?_
          exact hs.append hss

theorem block_covers (hg : CoveringGrammar I g) : Covers I N start lo (block g) fun b hi => LaidRow I start hi b.spans := by
  refine .expectPunct fun _ _ hopen => .bound fun n => .bind (statements_covers hg) fun ss _ _ hss => ?_
  exact .expectPunct fun _ _ hclose => .pure (.enclose hopen hss hclose)

theorem functionDef_covers (hg : CoveringGrammar I g) (hend : t.isEof = false) :
    Covers I (· = t) start lo (functionDef g) fun fn hi => LaidRow I start hi fn.spans := by
  refine .skip hend fun mid hstart => ?_
  have hfrom : t.span.start ≤ mid := hstart.within.start_le
  have hrest : ∀ {N : Token → Prop} {mid'} (name : Option Ident), LaidRow I mid mid' (name.toList.map .word) →
      Covers I N mid' mid' (expectPunct .openParen >>= fun _ => params g >>= fun ps => block g >>= fun body =>
        pure (FunctionDef.mk name ps body (t.span.merge body.span))) fun fn hi => LaidRow I start hi fn.spans := by
    intro N mid' name hname
    refine .expectPunct fun _ mid₁ hopen => .bind (params_covers hg) fun ps mid₂ _ hps => ?_
    refine .bind (block_covers hg) fun body hi _ hbody => .pure ?_
    have hopened : mid' ≤ mid₁ := Nat.le_of_lt hopen.lt
    have hrow := (hname.mono hfrom hopened).append hps
    have hjoined := Placed.join (hstart.within.mono (Nat.le_refl _) (Nat.le_trans hname.le (Nat.le_trans hopened hps.le)))
      hrow (Nat.le_refl _) (Block.placed hbody)
    cases name <;> simpa [FunctionDef.spans] using hjoined
  refine .atPunct fun b => ?_
  cases b with
  | true => exact hrest none (.nil (Nat.le_refl _))
  | false =>
      refine .bind (.map (f := some) (R := fun name hi => LaidRow I mid hi (name.toList.map .word)) ?_) fun name _ _ hname =>
        hrest name hname
      exact bindingName_covers.mono fun id hi _ hid => .word hid.1 hid.2.1

theorem primary_covers (hg : CoveringGrammar I g) : Covers I N start lo (primary g) fun e hi => LaidRow I start hi e.spans := by
  refine .peek fun t _ => ?_
  -- Most of these trees are one token: a word with the text of the token, or a span that is the token's.
  have hword : ∀ id : Ident, ∀ e : Expr, id.span = t.span → e.spans = [.word id] → t.isEof = false →
      (∀ mid, t.At I start mid → I id) → Covers I (· = t) start lo (advance >>= fun _ => pure e) fun e hi =>
        LaidRow I start hi e.spans := by
    intro id e hspan he hend hid
    refine .skip hend fun mid hat => .pure ?_
    rw [he]
    exact .word (hspan ▸ hat.within) (hid mid hat)
  have hliteral : ∀ value, t.isEof = false → Covers I (· = t) start lo (advance >>= fun _ =>
      pure (Expr.literal ⟨value, t.text⟩ t.span)) fun e hi => LaidRow I start hi e.spans :=
    fun value hend => hword ⟨t.text, t.span⟩ _ rfl rfl hend fun _ hat => hat.text
  have hone : ∀ e : Expr, e.spans = [.node t.span []] → t.isEof = false →
      Covers I (· = t) start lo (advance >>= fun _ => pure e) fun e hi => LaidRow I start hi e.spans := by
    intro e he hend
    refine .skip hend fun mid hat => .pure ?_
    rw [he]
    exact .node hat.within (.nil (Nat.le_of_lt hat.within.nonempty))
  split
  · rename_i name hkind
    exact hword ⟨name, t.span⟩ _ rfl rfl (isEof_of_kind hkind rfl) fun _ hat => hat.word name (by rw [hkind]; rfl)
  · rename_i hkind
    exact hword ⟨"async", t.span⟩ _ rfl rfl (isEof_of_kind hkind rfl) fun _ hat => hat.word "async" (by rw [hkind]; rfl)
  · rename_i hkind
    exact hliteral _ (isEof_of_kind hkind rfl)
  · rename_i hkind
    exact hliteral _ (isEof_of_kind hkind rfl)
  · rename_i hkind
    exact hliteral _ (isEof_of_kind hkind rfl)
  · rename_i hkind
    exact hliteral _ (isEof_of_kind hkind rfl)
  · rename_i hkind
    exact hliteral _ (isEof_of_kind hkind rfl)
  · rename_i hkind
    exact hone _ rfl (isEof_of_kind hkind rfl)
  · rename_i hkind
    exact .bind (functionDef_covers hg (isEof_of_kind hkind rfl)) fun fn hi _ hfn => .pure hfn
  · rename_i hkind
    exact hone _ rfl (isEof_of_kind hkind rfl)
  · rename_i hkind
    refine .skip (isEof_of_kind hkind rfl) fun mid hat => .bound fun n => ?_
    exact templateRest_covers hg hat.within _ (.nil (Nat.le_refl _))
  · rename_i hkind
    refine .skip (isEof_of_kind hkind rfl) fun mid hopen => .bind (expression_covers hg) fun e mid' _ he => ?_
    refine .expectPunct fun _ hi hclose => .pure ?_
    exact he.mono (Nat.le_of_lt hopen.within.lt) (Nat.le_of_lt hclose.lt)
  · rename_i hkind
    refine .skip (isEof_of_kind hkind rfl) fun mid hopen => .bound fun n => ?_
    refine .bind (separatedWithHoles_covers rfl (fun _ => item_covers hg) n) fun is _ _ his => ?_
    rw [← spansOfItems_eq] at his
    exact .expectPunct fun _ _ hclose => .pure (.enclose hopen.within his hclose)
  · rename_i hkind
    refine .skip (isEof_of_kind hkind rfl) fun mid hopen => .bound fun n => ?_
    refine .bind (separated_covers (fun _ => property_covers hg) n) fun ps _ _ hps => ?_
    rw [← spansOfProperties_eq] at hps
    exact .expectPunct fun _ _ hclose => .pure (.enclose hopen.within hps hclose)
  · exact .unexpected

/-! ## Chains -/

theorem computedMember_covers (hg : CoveringGrammar I g) (he : LaidRow I lo mid e.spans) (optional : Bool) :
    Covers I N mid mid (computedMember g e optional) fun e hi => LaidRow I lo hi e.spans := by
  refine .bind (expression_covers hg) fun k mid' _ hk => .expectPunct fun _ hi hclose => .spanFrom fun span hspan => .pure ?_
  rw [hspan]
  exact (Expr.placed he).extend (hk.mono (Nat.le_refl _) (Nat.le_of_lt hclose.lt))

theorem call_covers (hg : CoveringGrammar I g) (he : LaidRow I lo mid e.spans) (optional : Bool) :
    Covers I N mid mid (call g e optional) fun e hi => LaidRow I lo hi e.spans := by
  refine .expectPunct fun _ mid₁ hopen => .bound fun n => ?_
  refine .bind (separated_covers (fun _ => item_covers hg) n) fun args mid₂ _ hargs => ?_
  refine .expectPunct fun _ hi hclose => .spanFrom fun span hspan => .pure ?_
  rw [← spansOfItems_eq] at hargs
  rw [hspan]
  exact (Expr.placed he).extend (hargs.mono (Nat.le_of_lt hopen.lt) (Nat.le_of_lt hclose.lt))

theorem chain_covers (hg : CoveringGrammar I g) (he : LaidRow I lo mid e.spans) :
    Covers I N mid mid (chain g e fuel) fun e hi => LaidRow I lo hi e.spans := by
  induction fuel generalizing N mid e with
  | zero => exact .exhausted
  | succ fuel ih =>
      have hnamed : ∀ {N : Token → Prop} {mid'} (optional : Bool), mid ≤ mid' → Covers I N mid' mid' (propertyName >>= fun name =>
          member e (.name name) optional >>= fun e' => chain g e' fuel) fun e hi => LaidRow I lo hi e.spans := by
        intro N mid' optional hle
        refine .bind propertyName_covers fun name hi _ hname => .spanFrom fun span hspan => ih ?_
        rw [hspan]
        exact (Expr.placed he).extend ((LaidRow.word hname.1 hname.2.1).mono hle (Nat.le_refl _))
      refine .peek fun t _ => ?_
      split
      · exact .advance fun _ mid' _ hle _ => hnamed false hle
      · refine .advance fun _ mid' _ hle _ => .atPunct fun b => ?_
        have he' : LaidRow I lo mid' e.spans := he.mono (Nat.le_refl _) hle
        cases b with
        | true =>
            have hcall : ∀ {N : Token → Prop} {mid₁}, mid' ≤ mid₁ → Covers I N mid₁ mid₁ (call g e true >>= fun e' =>
                chain g e' fuel) fun e hi => LaidRow I lo hi e.spans := fun hle' =>
              .bind (call_covers hg (he'.mono (Nat.le_refl _) hle') true) fun e₁ _ _ he₁ => ih he₁
            exact .eatPunct (fun _ _ _ hspan => hcall (Nat.le_of_lt hspan.lt)) (hcall (Nat.le_refl _))
        | false =>
            refine .eatPunct (fun _ mid₁ _ hspan => ?_) (hnamed true hle)
            have he₁ : LaidRow I lo mid₁ e.spans := he'.mono (Nat.le_refl _) (Nat.le_of_lt hspan.lt)
            exact .bind (computedMember_covers hg he₁ true) fun e₂ _ _ he₂ => ih he₂
      · refine .advance fun _ mid' _ hle _ => ?_
        exact .bind (computedMember_covers hg (he.mono (Nat.le_refl _) hle) false) fun e₁ _ _ he₁ => ih he₁
      · exact .bind (call_covers hg he false) fun e₁ _ _ he₁ => ih he₁
      · exact .fail
      · exact .fail
      · exact .pure he

/-! ## Operators -/

theorem suffixed_covers (hg : CoveringGrammar I g) : Covers I N start lo (suffixed g) fun e hi => LaidRow I start hi e.spans := by
  refine .bind (primary_covers hg) fun e₀ mid₀ _ he₀ => .bound fun n => ?_
  refine .bind (chain_covers hg he₀) fun e mid _ he => .peek fun t _ => ?_
  split
  · rename_i op hop
    split
    · exact .pure he
    · refine .skip (isEof_of_op hop rfl) fun hi hat => .lift fun p hp => .pure ?_
      exact (Pattern.placed (toSimpleTarget_laid hp he)).before hat.within
  · exact .pure he

theorem unary_covers (hg : CoveringGrammar I g) : Covers I N start lo (unary g) fun e hi => LaidRow I start hi e.spans := by
  refine .peek fun t _ => ?_
  split
  · rename_i op hop
    refine .skip (isEof_of_op hop rfl) fun mid hat => .bind (hg.unary mid) fun e hi _ he => .pure ?_
    exact Placed.behind hat.within (Expr.placed he)
  · split
    · rename_i hword
      refine .skip (Draws.isEof_of_isKeyword hword) fun mid hat => .bind (hg.unary mid) fun e hi _ he => .pure ?_
      exact Placed.behind hat.within (Expr.placed he)
    · split
      · rename_i op hop
        refine .skip (isEof_of_op hop rfl) fun mid hat => .bind (hg.unary mid) fun e hi _ he => .lift fun p hp => .pure ?_
        exact Placed.behind hat.within (Pattern.placed (toSimpleTarget_laid hp he))
      · exact (suffixed_covers hg).any

theorem infixFrom_covers (hg : CoveringGrammar I g) (least : Nat) (he : LaidRow I lo mid e.spans) :
    Covers I N mid mid (infixFrom g least e fuel) fun e hi => LaidRow I lo hi e.spans := by
  induction fuel generalizing N mid e with
  | zero => exact .exhausted
  | succ fuel ih =>
      refine .peek fun t _ => ?_
      split
      · rename_i op _
        split
        · exact .pure he
        · refine .advance fun _ mid' _ hle _ => .bind (hg.binary _ mid') fun right hi _ hright => ih ?_
          have hboth := Placed.join_placed (Expr.placed he) hle (Expr.placed hright)
          cases op <;> exact hboth
      · exact .pure he

theorem binary_covers (hg : CoveringGrammar I g) (least : Nat) :
    Covers I N start lo (binary g least) fun e hi => LaidRow I start hi e.spans :=
  .bind (unary_covers hg) fun _ _ _ he => .bound fun _ => infixFrom_covers hg least he

theorem conditional_covers (hg : CoveringGrammar I g) :
    Covers I N start lo (conditional g) fun e hi => LaidRow I start hi e.spans := by
  refine .bind (binary_covers hg 1) fun test mid _ htest => .eatPunct (fun _ mid₁ _ hmark => ?_) (.pure htest)
  refine .bind (hg.assignment mid₁) fun yes mid₂ _ hyes => .expectPunct fun _ mid₃ hcolon => ?_
  refine .bind (hg.assignment mid₃) fun no hi _ hno => .pure ?_
  have htest' := Expr.placed htest
  have hrow : LaidRow I test.span.start mid₃ (test.spans ++ yes.spans) :=
    (htest'.row.mono (Nat.le_refl _) htest'.within.stop).append
      (hyes.mono (Nat.le_of_lt hmark.lt) (Nat.le_of_lt hcolon.lt))
  have hwithin := htest'.within.mono (Nat.le_refl _)
    (Nat.le_trans (Nat.le_of_lt hmark.lt) (Nat.le_trans hyes.le (Nat.le_of_lt hcolon.lt)))
  rw [Expr.spans, ← List.append_assoc]
  exact Placed.join hwithin hrow (Nat.le_refl _) (Expr.placed hno)

/-! ## Arrow functions and assignments -/

/-- The token that an arrow function starts with is consumed in front of its parameters, if it has not been before. -/
theorem arrowRest_covers (hg : CoveringGrammar I g) {opening : Token} {a : Nat} (isAsync : Bool)
    (hopening : ∀ t hi, N t → t.span.Within start hi → opening.span.Within a hi ∧ opening.span.start ≤ t.span.start) :
    Covers I N start lo (arrowRest g opening isAsync) fun e hi => LaidRow I a hi e.spans := by
  have hrest : ∀ ps mid', opening.span.Within a mid' → LaidRow I opening.span.start mid' (spansOfPatterns ps) →
      Covers I AnyToken mid' mid' (expectPunct .arrow >>= fun _ => atPunct .openBrace >>= fun b => if b = true then
        ArrowBody.block <$> block g >>= fun body => spanFrom opening.span >>= fun span =>
          pure (Expr.arrow ps body isAsync span)
        else ArrowBody.expr <$> g.assignment >>= fun body => spanFrom opening.span >>= fun span =>
          pure (Expr.arrow ps body isAsync span)) fun e hi => LaidRow I a hi e.spans := by
    intro ps mid' hspan hps
    refine .expectPunct fun _ mid₁ harrow => .atPunct fun b => ?_
    have hdone : ∀ (body : ArrowBody) hi, LaidRow I mid₁ hi body.spans → Covers I AnyToken hi hi (spanFrom opening.span >>=
        fun span => pure (Expr.arrow ps body isAsync span)) fun e hi => LaidRow I a hi e.spans := by
      refine fun body hi hbody => .spanFrom fun span hspan' => .pure ?_
      rw [hspan']
      refine .upTo hspan (Nat.le_trans (Nat.le_of_lt harrow.lt) hbody.le) (hps.append ?_)
      exact hbody.mono (Nat.le_of_lt harrow.lt) (Nat.le_refl _)
    cases b with
    | true => exact .bind (.map (R := fun body hi => LaidRow I mid₁ hi body.spans) (block_covers hg)) fun body hi _ => hdone body hi
    | false =>
        exact .bind (.map (R := fun body hi => LaidRow I mid₁ hi body.spans) (hg.assignment mid₁).any) fun body hi _ =>
          hdone body hi
  refine .eatPunct (fun t mid' ht hspan => ?_) ?_
  · obtain ⟨hopened, -⟩ := hopening t mid' ht hspan
    refine .bind (params_covers hg) fun ps hi hle hps => hrest ps hi (hopened.mono (Nat.le_refl _) hle) ?_
    exact hps.mono (hopened.start_le) (Nat.le_refl _)
  · refine .bind bindingName_covers fun id mid' _ hid => ?_
    obtain ⟨hspan, hword, t, ht, htoken⟩ := hid
    obtain ⟨hopened, hfrom⟩ := hopening t mid' ht.1 (htoken ▸ hspan)
    rw [← htoken] at hfrom
    exact hrest [.ident id] mid' hopened (.word ⟨hfrom, hspan.nonempty, hspan.stop⟩ hword)

theorem arrow_covers (hg : CoveringGrammar I g) : Covers I N start lo (arrow g) fun e hi => LaidRow I start hi e.spans := by
  refine .peek fun t _ => ?_
  have hplain : Covers I (· = t) start lo (arrowRest g t false) fun e hi => LaidRow I start hi e.spans := by
    refine arrowRest_covers hg false fun t' hi ht hspan => ?_
    rw [← ht]
    exact ⟨hspan, Nat.le_refl _⟩
  split
  · rename_i hword
    refine .peekNth fun next => ?_
    split
    · exact hplain
    · refine .skip (Draws.isEof_of_isKeyword hword) fun mid hat => arrowRest_covers hg true fun t' hi _ ht => ?_
      have hwithin := hat.within
      exact ⟨hwithin.mono (Nat.le_refl _) (Nat.le_of_lt ht.lt),
        Nat.le_trans hwithin.start_le ht.start⟩
  · exact hplain

theorem assigned_covers (hg : CoveringGrammar I g) (he : LaidRow I lo mid e.spans) :
    Covers I N mid mid (assigned g e) fun e hi => LaidRow I lo hi e.spans := by
  refine .peek fun t _ => ?_
  split
  · exact .pure he
  · rename_i op _
    have hrest : ∀ p : Pattern, LaidRow I lo mid p.spans → Covers I (· = t) mid mid (advance >>= fun _ => g.assignment >>=
        fun value => pure (Expr.assign op p value (p.span.merge value.span))) fun e hi => LaidRow I lo hi e.spans := by
      refine fun p hp => .advance fun _ mid' _ hle _ => .bind (hg.assignment mid') fun value hi _ hvalue => .pure ?_
      exact Placed.join_placed (Pattern.placed hp) hle (Expr.placed hvalue)
    split
    · exact .lift fun p hp => hrest p (toPattern_laid e hp he)
    · exact .lift fun p hp => hrest p (toSimpleTarget_laid hp he)

theorem assignment_covers (hg : CoveringGrammar I g) :
    Covers I N start lo (assignment g) fun e hi => LaidRow I start hi e.spans := by
  refine .look (x := get) (by rintro st _ _ ⟨⟩; rfl) fun st => .lift fun b _ => ?_
  split
  · exact arrow_covers hg
  · exact .bind (conditional_covers hg) fun left _ _ hleft => assigned_covers hg hleft

/-! ## Statements -/

theorem parenthesised_covers (hg : CoveringGrammar I g) :
    Covers I N lo lo (parenthesised g) fun e hi => LaidRow I lo hi e.spans := by
  refine .expectPunct fun _ _ hopen => .bind (expression_covers hg) fun e _ _ he => .expectPunct fun _ _ hclose => .pure ?_
  exact he.mono (Nat.le_of_lt hopen.lt) (Nat.le_of_lt hclose.lt)

theorem optional_covers {p : Parser Expr} (hp : Covers I N lo lo p fun e hi => LaidRow I lo hi e.spans) :
    Covers I N lo lo (some <$> p) fun e hi => LaidRow I lo hi (spansOfOption e) :=
  .map hp

theorem declarator_covers (hg : CoveringGrammar I g) :
    Covers I N lo lo (declarator g) fun d hi => LaidRow I lo hi (spansOfDeclarators [d]) := by
  refine .bind (hg.bindingTarget lo).any fun p mid _ hp => ?_
  have hdone : ∀ {N : Token → Prop} init hi, LaidRow I mid hi (spansOfOption init) → Covers I N hi hi (spanFrom p.span >>=
      fun span => pure (Declarator.mk p init span)) fun d hi => LaidRow I lo hi (spansOfDeclarators [d]) := by
    refine fun init hi hinit => .spanFrom fun span hspan => .pure ?_
    rw [hspan]
    exact (Pattern.placed hp).extend hinit
  refine .eatPunct (fun _ mid' _ hmark => ?_) (hdone none mid (.nil (Nat.le_refl _)))
  refine .bind (optional_covers (hg.assignment mid')) fun init hi _ hinit => hdone init hi ?_
  exact hinit.mono (Nat.le_of_lt hmark.lt) (Nat.le_refl _)

theorem declarators_covers (hg : CoveringGrammar I g) :
    Covers I N lo lo (declarators g fuel) fun ds hi => LaidRow I lo hi (spansOfDeclarators ds) := by
  induction fuel generalizing N lo with
  | zero => exact .exhausted
  | succ fuel ih =>
      refine .bind (declarator_covers hg) fun d mid _ hd => .eatPunct (fun _ mid' _ hcomma => ?_) (.pure hd)
      refine .bind ih fun ds hi _ hds => .pure ?_
      obtain ⟨p, init, span⟩ := d
      have hmore := hds.mono (Nat.le_of_lt hcomma.lt) (Nat.le_refl _)
      show LaidRow I lo hi (spansOfDeclarators [.mk p init span] ++ spansOfDeclarators ds)
      exact hd.append hmore

theorem varDecl_covers (hg : CoveringGrammar I g) (kind : DeclKind) (hend : t.isEof = false) :
    Covers I (· = t) start lo (varDecl g kind) fun d hi => t.span.Within start hi ∧ LaidRow I t.span.start hi d.spans := by
  refine .skip hend fun mid hat => .bound fun n => .bind (declarators_covers hg) fun ds hi _ hds => ?_
  refine .spanFrom fun span hspan => .pure ⟨hat.within.mono (Nat.le_refl _) hds.le, ?_⟩
  have hwithin := hat.within
  rw [hspan]
  refine .upTo ⟨Nat.le_refl _, hwithin.nonempty, hwithin.stop⟩ hds.le (hds.mono ?_ (Nat.le_refl _))
  exact hwithin.start_le

theorem optionalExpr_covers (hg : CoveringGrammar I g) (close : Punct) :
    Covers I N lo lo (optionalExpr g close) fun e hi => LaidRow I lo hi (spansOfOption e) := by
  refine .atPunct fun b => ?_
  cases b with
  | true => exact .pure (Nat.le_refl _)
  | false => exact .bind (expression_covers hg) fun e _ _ he => .pure he

theorem forInit_covers (hg : CoveringGrammar I g) :
    Covers I N lo lo (forInit g) fun init hi => LaidRow I lo hi init.spans := by
  refine .peek fun t _ => ?_
  split
  · exact .pure (Nat.le_refl _)
  · split
    · rename_i kind hkind
      refine .bind (varDecl_covers hg kind (isEof_of_declKind hkind)) fun d hi _ hd => .pure ?_
      exact hd.2.mono hd.1.start (Nat.le_refl _)
    · exact .bind (expression_covers hg) fun e _ _ he => .pure he

/-- A statement from a token on, up to where the last token consumed ends. -/
theorem stmtFrom_covers {s : Span} {stmt : Span → Stmt} {xs : List SpanTree} (hs : s.Within lo mid)
    (hrow : LaidRow I s.start mid xs) (hspans : ∀ span, (stmt span).spans = [.node span xs]) :
    Covers I N mid mid (spanFrom s >>= fun span => pure (stmt span)) fun stmt hi => LaidRow I lo hi stmt.spans := by
  refine .spanFrom fun span hspan => .pure ?_
  rw [hspans, hspan]
  exact .upTo hs (Nat.le_refl _) hrow

/-- A statement with a row behind the token that it starts with. -/
theorem stmtBehind_covers {s : Span} {a : Nat} {stmt : Span → Stmt} {xs : List SpanTree} (hs : s.Within lo a)
    (hrow : LaidRow I a mid xs) (hspans : ∀ span, (stmt span).spans = [.node span xs]) :
    Covers I N mid mid (spanFrom s >>= fun span => pure (stmt span)) fun stmt hi => LaidRow I lo hi stmt.spans :=
  stmtFrom_covers (hs.mono (Nat.le_refl _) hrow.le) (hrow.mono hs.start_le (Nat.le_refl _)) hspans

theorem forStmt_covers (hg : CoveringGrammar I g) (hend : t.isEof = false) :
    Covers I (· = t) start lo (forStmt g) fun s hi => LaidRow I start hi s.spans := by
  refine .skip hend fun mid hat => .expectPunct fun _ _ hopen => .bind (forInit_covers hg) fun init _ _ hinit => ?_
  refine .peek fun t _ => ?_
  split
  · exact .fail
  · exact .fail
  · simp only [Bool.false_eq_true, if_false]
    refine .expectPunct fun _ _ hmark => .bind (optionalExpr_covers hg .semicolon) fun test _ _ htest => ?_
    refine .expectPunct fun _ _ hmark' => .bind (optionalExpr_covers hg .closeParen) fun update _ _ hupdate => ?_
    refine .expectPunct fun _ mid' hclose => .bind (hg.statement mid') fun body hi _ hbody => ?_
    have hlast := (hupdate.mono (Nat.le_of_lt hmark'.lt) (Nat.le_of_lt hclose.lt)).append hbody
    have hclauses := (htest.mono (Nat.le_of_lt hmark.lt) (Nat.le_refl _)).append hlast
    exact stmtBehind_covers hat.within ((hinit.mono (Nat.le_of_lt hopen.lt) (Nat.le_refl _)).append hclauses) fun _ => rfl

theorem returnStmt_covers (hg : CoveringGrammar I g) (hend : t.isEof = false) :
    Covers I (· = t) start lo (returnStmt g) fun s hi => LaidRow I start hi s.spans := by
  refine .skip hend fun mid hat => .peek fun t' _ => ?_
  have hrest : ∀ {N : Token → Prop} {mid'} arg, LaidRow I mid mid' (spansOfOption arg) → Covers I N mid' mid' (semicolon >>=
      fun _ => spanFrom t.span >>= fun span => pure (Stmt.return arg span)) fun s hi => LaidRow I start hi s.spans :=
    fun arg harg => .bind semicolon_covers fun _ _ hle _ =>
      stmtBehind_covers hat.within (harg.mono (Nat.le_refl _) hle) fun _ => rfl
  dsimp only
  split
  · rw [pure_bind]
    exact hrest none (.nil (Nat.le_refl _))
  · exact .bind (optional_covers (expression_covers hg)) fun arg _ _ harg => hrest arg harg

theorem wordStmt_covers (hend : t.isEof = false) {stmt : Span → Stmt}
    (hspans : ∀ span, (stmt span).spans = [.node span []]) :
    Covers I (· = t) start lo (wordStmt stmt) fun s hi => LaidRow I start hi s.spans :=
  .skip hend fun _ hat => .bind semicolon_covers fun _ _ hle _ => stmtBehind_covers hat.within (.nil hle) hspans

theorem statement_covers (hg : CoveringGrammar I g) :
    Covers I N lo lo (statement g) fun s hi => LaidRow I lo hi s.spans := by
  refine .peekFrom fun t _ hle => ?_
  -- An expression statement starts at the first token of its expression, which may be a parenthesis.
  have hplain : Covers I (· = t) t.span.start lo (sequence g (assignment g) >>= fun e => semicolon >>= fun _ =>
      spanFrom t.span >>= fun span => pure (Stmt.expr e span)) fun s hi => LaidRow I lo hi s.spans := by
    have hsequence : Covers I (· = t) t.span.start lo (sequence g (assignment g)) fun e hi =>
        LaidRow I t.span.start hi e.spans := sequence_covers hg (assignment_covers hg)
    have hread := hsequence.consumed fun e he =>
      absurd (Nat.lt_of_le_of_lt hle (Expr.placed he).within.lt) (Nat.lt_irrefl _)
    refine .bind hread fun e mid _ he => .bind semicolon_covers fun _ mid' hle' _ => ?_
    exact stmtFrom_covers (he.2.mono hle hle') (he.1.mono (Nat.le_refl _) hle') fun _ => rfl
  have hdeclare : ∀ kind, t.isEof = false → Covers I (· = t) t.span.start lo (varDecl g kind >>= fun d => semicolon >>=
      fun _ => spanFrom t.span >>= fun span => pure (Stmt.declare d span)) fun s hi => LaidRow I lo hi s.spans := by
    refine fun kind hend => .bind (varDecl_covers hg kind hend) fun d _ _ hd => .bind semicolon_covers fun _ _ hle' _ => ?_
    exact stmtFrom_covers (hd.1.mono hle hle') (hd.2.mono (Nat.le_refl _) hle') fun _ => rfl
  split
  · exact .bind (block_covers hg) fun b _ _ hb => .pure (hb.mono hle (Nat.le_refl _))
  · rename_i hkind
    refine .skip (isEof_of_kind hkind rfl) fun mid hat => .pure ?_
    exact .node (hat.within.mono hle (Nat.le_refl _)) (.nil (Nat.le_of_lt hat.within.nonempty))
  · rename_i hkind
    exact hdeclare _ (isEof_of_kind hkind rfl)
  · rename_i hkind
    exact hdeclare _ (isEof_of_kind hkind rfl)
  · rename_i hkind
    exact hdeclare _ (isEof_of_kind hkind rfl)
  · rename_i hkind
    refine .skip (isEof_of_kind hkind rfl) fun _ hat => .bind (parenthesised_covers hg) fun test mid _ htest => ?_
    have hspan := hat.within.mono hle (Nat.le_refl _)
    refine .bind (hg.statement mid) fun yes mid' _ hyes => .eatKeyword (fun mid₁ hle₁ => ?_)
      (stmtBehind_covers hspan (htest.append hyes) fun _ => rfl)
    refine .bind (.map (f := some) (R := fun no hi => ∃ s, no = some s ∧ LaidRow I mid₁ hi s.spans)
      ((hg.statement mid₁).mono fun s hi _ hs => ⟨s, rfl, hs⟩)) fun no hi _ hno => ?_
    obtain ⟨no, rfl, hno⟩ := hno
    exact stmtBehind_covers hspan (htest.append (hyes.append (hno.mono hle₁ (Nat.le_refl _)))) fun _ => rfl
  · rename_i hkind
    refine .skip (isEof_of_kind hkind rfl) fun _ hat => .bind (parenthesised_covers hg) fun test mid _ htest => ?_
    refine .bind (hg.statement mid) fun body _ _ hbody => ?_
    exact stmtBehind_covers (hat.within.mono hle (Nat.le_refl _)) (htest.append hbody) fun _ => rfl
  · rename_i hkind
    refine .skip (isEof_of_kind hkind rfl) fun mid hat => .bind (hg.statement mid) fun body _ _ hbody => ?_
    refine .eatKeyword (fun mid' hle' => .bind (parenthesised_covers hg) fun test mid₁ _ htest => ?_) .unexpected
    have hrow := hbody.append (htest.mono hle' (Nat.le_refl _))
    have hspan := hat.within.mono hle (Nat.le_refl _)
    refine .eatPunct (fun _ _ _ hmark => ?_) (stmtBehind_covers hspan hrow fun _ => rfl)
    exact stmtBehind_covers hspan (hrow.mono (Nat.le_refl _) (Nat.le_of_lt hmark.lt)) fun _ => rfl
  · rename_i hkind
    exact (forStmt_covers hg (isEof_of_kind hkind rfl)).mono fun s hi _ hs => hs.mono hle (Nat.le_refl _)
  · rename_i hkind
    exact (returnStmt_covers hg (isEof_of_kind hkind rfl)).mono fun s hi _ hs => hs.mono hle (Nat.le_refl _)
  · rename_i hkind
    exact (wordStmt_covers (isEof_of_kind hkind rfl) fun _ => rfl).mono fun s hi _ hs => hs.mono hle (Nat.le_refl _)
  · rename_i hkind
    exact (wordStmt_covers (isEof_of_kind hkind rfl) fun _ => rfl).mono fun s hi _ hs => hs.mono hle (Nat.le_refl _)
  · rename_i hkind
    exact (wordStmt_covers (isEof_of_kind hkind rfl) fun _ => rfl).mono fun s hi _ hs => hs.mono hle (Nat.le_refl _)
  · rename_i hkind
    refine .peekNth fun next => ?_
    split
    · exact hplain
    · refine .bind (functionDef_covers hg (isEof_of_kind hkind rfl)) fun fn _ _ hfn => .pure ?_
      exact hfn.mono hle (Nat.le_refl _)
  · exact hplain

/-! ## The grammar -/

theorem grammar_covering (D : Nat) : CoveringGrammar I (grammar D) := by
  induction D with
  | zero => exact ⟨fun _ => .exhausted, fun _ _ => .exhausted, fun _ => .exhausted, fun _ => .exhausted, fun _ => .exhausted⟩
  | succ D ih =>
      exact ⟨fun _ => assignment_covers ih, fun _ _ => binary_covers ih _, fun _ => unary_covers ih,
        fun _ => statement_covers ih, fun _ => bindingTarget_covers ih⟩

/-! ## Expressions of a source -/

variable {source : Source} {offset : Nat} {parsed : Parsed}

/-- The spans of an expression that is read from a source are laid between the offset at which reading starts and the one
at which it stops, and its names and literals are the texts of their spans. -/
theorem exprAt_row (h : source.exprAt offset = .ok parsed) :
    LaidRow source.Holds offset parsed.stop parsed.expr.spans ∧ parsed.stop ≤ source.size := by
  unfold Source.exprAt at h
  split at h
  · rename_i e state hrun
    cases h
    obtain ⟨front, rest, hchars, hoffset⟩ := Source.exists_of_run hrun
    have hle : offset ≤ source.size := by
      rw [Source.size, hchars, Text.byteLength_append, hoffset]
      exact Nat.le_add_right _ _
    obtain ⟨passed, c, k, hsplit, hplace, hstate⟩ := Source.scan_of_run hrun
    refine ⟨?_, ?_⟩
    · have hgrammar := grammar_covering (I := source.Holds) ((Stream.ofSource source offset).length + 1)
      obtain ⟨-, -, -, hrow⟩ := sequence_covers hgrammar (assignment_covers hgrammar) _ e state
        (Stream.ofSource_ordered hle) (Nat.le_refl _) rfl (fun _ _ => trivial) hrun
      exact hrow
    · rw [hstate, Source.size, hsplit, Text.byteLength_append, hplace]
      exact Nat.le_add_right _ _
  · cases h

/-- An expression that is read from a source lies between the offset at which reading starts and the one at which it
stops. -/
theorem exprAt_within (h : source.exprAt offset = .ok parsed) : parsed.expr.span.Within offset parsed.stop :=
  (Expr.placed (exprAt_row h).1).within

/-- Where an expression is read, all spans of its tree lie in the part of the source that is read, those of children in
those of their parents and one behind another, and every name and every literal is the text of its span. -/
theorem exprAt_laid (h : source.exprAt offset = .ok parsed) :
    parsed.expr.span.Within offset parsed.stop ∧ parsed.stop ≤ source.size ∧
      (∀ s ∈ SpanTree.allOf parsed.expr.spans, s.Within offset parsed.stop) ∧
      LaidRow source.Holds offset parsed.stop parsed.expr.spans := by
  obtain ⟨hrow, hsize⟩ := exprAt_row h
  exact ⟨exprAt_within h, hsize, hrow.within, hrow⟩

/-- An arrow in parentheses, with an entry that is written as one name in its body. -/
theorem groupedArrow_laid : ∃ parsed, (Source.ofString " (n => f(\x7bn\x7d, o.k, 'a')) ").exprAt 1 = .ok parsed ∧
    (parsed.expr.span.Within 1 parsed.stop ∧ parsed.stop ≤ (Source.ofString " (n => f(\x7bn\x7d, o.k, 'a')) ").size ∧
      (∀ s ∈ SpanTree.allOf parsed.expr.spans, s.Within 1 parsed.stop) ∧
      LaidRow (Source.ofString " (n => f(\x7bn\x7d, o.k, 'a')) ").Holds 1 parsed.stop parsed.expr.spans) := by
  have hread : ((Source.ofString " (n => f(\x7bn\x7d, o.k, 'a')) ").exprAt 1).isOk = true := by decide +kernel
  cases hparsed : (Source.ofString " (n => f(\x7bn\x7d, o.k, 'a')) ").exprAt 1 with
  | error fault =>
      rw [hparsed] at hread
      cases hread
  | ok parsed => exact ⟨parsed, rfl, exprAt_laid hparsed⟩

end FieldScript.Parse
