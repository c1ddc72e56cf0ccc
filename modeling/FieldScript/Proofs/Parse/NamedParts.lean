import FieldScript.Proofs.Parse.Draws
import FieldScript.Proofs.Parse.SoundParts

/-!
# Names of trees that are read: patterns and expressions

The names of a tree are those of its tokens. For each parser this follows, together with the count of its tokens, if it
holds of the grammar that the parser recurses through (`NamedGrammar`).
-/

namespace FieldScript

/-- A node whose name, if it is one, is as told. -/
def Node.Named (I : Ident → Prop) : Node → Prop
  | .expr (.identifier x span) => I ⟨x, span⟩
  | .pattern (.ident id) => I id
  | _ => True

/-- All names among nodes are as told. -/
def Named (I : Ident → Prop) (ns : List Node) : Prop := ∀ n ∈ ns, n.Named I

variable {I : Ident → Prop}

@[simp] theorem named_nil : Named I [] := nofun

@[simp] theorem named_cons {n : Node} {ns : List Node} : Named I (n :: ns) ↔ n.Named I ∧ Named I ns :=
  List.forall_mem_cons

@[simp] theorem named_append {ns ns' : List Node} : Named I (ns ++ ns') ↔ Named I ns ∧ Named I ns' :=
  List.forall_mem_append

namespace Parse

open Token (Kind Stream)
open Node

attribute [local simp] Node.Named ofExpr ofExprs ofItems ofKey ofProperties ofArrowBody ofFunction ofPattern ofPatterns
  ofPatternProps ofStmt ofOption ofBlock ofStmts ofVarDecl ofDeclarators ofForInit

/-! ## Lists of named parts -/

theorem named_exprs {es : List Expr} : Named I (ofExprs es) ↔ ∀ e ∈ es, Named I (ofExpr e) := by
  induction es with
  | nil => simp
  | cons e es ih => simp [ih]

theorem named_items {is : List Item} : Named I (ofItems is) ↔ ∀ i ∈ is, Named I (ofItems [i]) := by
  induction is with
  | nil => simp
  | cons i is ih => cases i <;> simp [ih]

theorem named_properties {ps : List Property} : Named I (ofProperties ps) ↔ ∀ p ∈ ps, Named I (ofProperties [p]) := by
  induction ps with
  | nil => simp
  | cons p ps ih => cases p <;> simp [ih, and_assoc]

theorem named_patterns {ps : List Pattern} : Named I (ofPatterns ps) ↔ ∀ p ∈ ps, Named I (ofPattern p) := by
  induction ps with
  | nil => simp
  | cons p ps ih => simp [ih]

theorem named_patternProps {ps : List PatternProp} :
    Named I (ofPatternProps ps) ↔ ∀ p ∈ ps, Named I (ofPatternProps [p]) := by
  induction ps with
  | nil => simp
  | cons p ps ih => cases p <;> simp [ih, and_assoc]

theorem named_declarators {ds : List Declarator} :
    Named I (ofDeclarators ds) ↔ ∀ d ∈ ds, Named I (ofDeclarators [d]) := by
  induction ds with
  | nil => simp
  | cons d ds ih =>
      obtain ⟨p, init, span⟩ := d
      simp [ih, and_assoc]

/-! ## Targets of assignments -/

mutual

theorem toPattern_textual (e : Expr) : Textual (toPattern e) := by
  match e with
  | .identifier _ _ | .member _ _ false _ => exact .ok _
  | .array is _ => exact (itemsToPatterns_textual is).map
  | .object ps _ => exact (propsToPatterns_textual ps).map
  | .member _ _ true _ | .literal _ _ | .template _ _ _ | .call _ _ _ _ | .arrow _ _ _ _ | .function _ | .this _
  | .await _ _ | .unary _ _ _ | .update _ _ _ _ | .binary _ _ _ _ | .logical _ _ _ _ | .conditional _ _ _ _
  | .assign _ _ _ _ | .sequence _ _ => exact .error nofun

theorem toElement_textual (e : Expr) : Textual (toElement e) := by
  match e with
  | .assign .assign _ _ _ | .identifier _ _ | .member _ _ false _ => exact .ok _
  | .array is _ => exact (itemsToPatterns_textual is).map
  | .object ps _ => exact (propsToPatterns_textual ps).map
  | .member _ _ true _ | .literal _ _ | .template _ _ _ | .call _ _ _ _ | .arrow _ _ _ _ | .function _ | .this _
  | .await _ _ | .unary _ _ _ | .update _ _ _ _ | .binary _ _ _ _ | .logical _ _ _ _ | .conditional _ _ _ _
  | .assign (.binary _) _ _ _ | .assign (.logical _) _ _ _ | .sequence _ _ => exact .error nofun

theorem itemsToPatterns_textual (is : List Item) : Textual (itemsToPatterns is) := by
  match is with
  | [] => exact .ok _
  | .hole :: more => exact (itemsToPatterns_textual more).bind fun _ _ => .ok _
  | .spread e :: more => exact (toPattern_textual e).bind fun _ _ => (itemsToPatterns_textual more).bind fun _ _ => .ok _
  | .expr e :: more => exact (toElement_textual e).bind fun _ _ => (itemsToPatterns_textual more).bind fun _ _ => .ok _

theorem propsToPatterns_textual (ps : List Property) : Textual (propsToPatterns ps) := by
  match ps with
  | [] => exact .ok _
  | .spread e :: more => exact (toPattern_textual e).bind fun _ _ => (propsToPatterns_textual more).bind fun _ _ => .ok _
  | .init _ e _ _ :: more =>
      exact (toElement_textual e).bind fun _ _ => (propsToPatterns_textual more).bind fun _ _ => .ok _

end

mutual

theorem toPattern_named (e : Expr) {p : Pattern} (h : toPattern e = .ok p) (he : Named I (ofExpr e)) :
    Named I (ofPattern p) := by
  match e with
  | .identifier _ _ | .member _ _ false _ =>
      cases h
      simpa using he
  | .array is _ =>
      obtain ⟨ps, hps, rfl⟩ := exists_of_map h
      simpa using itemsToPatterns_named is hps (by simpa using he)
  | .object ps _ =>
      obtain ⟨qs, hqs, rfl⟩ := exists_of_map h
      simpa using propsToPatterns_named ps hqs (by simpa using he)
  | .member _ _ true _ | .literal _ _ | .template _ _ _ | .call _ _ _ _ | .arrow _ _ _ _ | .function _ | .this _
  | .await _ _ | .unary _ _ _ | .update _ _ _ _ | .binary _ _ _ _ | .logical _ _ _ _ | .conditional _ _ _ _
  | .assign _ _ _ _ | .sequence _ _ => cases h
termination_by structural e

theorem toElement_named (e : Expr) {p : Pattern} (h : toElement e = .ok p) (he : Named I (ofExpr e)) :
    Named I (ofPattern p) := by
  match e with
  | .assign .assign _ _ _ | .identifier _ _ | .member _ _ false _ =>
      cases h
      simpa using he
  | .array is _ =>
      obtain ⟨ps, hps, rfl⟩ := exists_of_map h
      simpa using itemsToPatterns_named is hps (by simpa using he)
  | .object ps _ =>
      obtain ⟨qs, hqs, rfl⟩ := exists_of_map h
      simpa using propsToPatterns_named ps hqs (by simpa using he)
  | .member _ _ true _ | .literal _ _ | .template _ _ _ | .call _ _ _ _ | .arrow _ _ _ _ | .function _ | .this _
  | .await _ _ | .unary _ _ _ | .update _ _ _ _ | .binary _ _ _ _ | .logical _ _ _ _ | .conditional _ _ _ _
  | .assign (.binary _) _ _ _ | .assign (.logical _) _ _ _ | .sequence _ _ => cases h
termination_by structural e

theorem itemsToPatterns_named (is : List Item) {ps : List Pattern} (h : itemsToPatterns is = .ok ps)
    (his : Named I (ofItems is)) : Named I (ofPatterns ps) := by
  match is with
  | [] =>
      cases h
      simp
  | .hole :: more =>
      obtain ⟨qs, hqs, ⟨⟩⟩ := exists_of_target_bind h
      simpa using itemsToPatterns_named more hqs (by simpa using his)
  | .spread e :: more =>
      obtain ⟨p, hp, h⟩ := exists_of_target_bind h
      obtain ⟨qs, hqs, ⟨⟩⟩ := exists_of_target_bind h
      rw [ofItems, named_append] at his
      simpa using And.intro (toPattern_named e hp his.1) (itemsToPatterns_named more hqs his.2)
  | .expr e :: more =>
      obtain ⟨p, hp, h⟩ := exists_of_target_bind h
      obtain ⟨qs, hqs, ⟨⟩⟩ := exists_of_target_bind h
      rw [ofItems, named_append] at his
      simpa using And.intro (toElement_named e hp his.1) (itemsToPatterns_named more hqs his.2)
termination_by structural is

theorem propsToPatterns_named (ps : List Property) {qs : List PatternProp} (h : propsToPatterns ps = .ok qs)
    (hps : Named I (ofProperties ps)) : Named I (ofPatternProps qs) := by
  match ps with
  | [] =>
      cases h
      simp
  | .spread e :: more =>
      obtain ⟨p, hp, h⟩ := exists_of_target_bind h
      obtain ⟨qs, hqs, ⟨⟩⟩ := exists_of_target_bind h
      rw [ofProperties, named_append] at hps
      simpa using And.intro (toPattern_named e hp hps.1) (propsToPatterns_named more hqs hps.2)
  | .init k e shorthand span :: more =>
      obtain ⟨p, hp, h⟩ := exists_of_target_bind h
      obtain ⟨qs, hqs, ⟨⟩⟩ := exists_of_target_bind h
      rw [ofProperties, named_append, named_append] at hps
      simpa using And.intro hps.1 (And.intro (toElement_named e hp hps.2.1) (propsToPatterns_named more hqs hps.2.2))
termination_by structural ps

end

theorem toSimpleTarget_textual (e : Expr) : Textual (toSimpleTarget e) := by
  unfold toSimpleTarget
  split
  · exact .ok _
  · exact .ok _
  · exact .error nofun

theorem toSimpleTarget_named {e : Expr} {p : Pattern} (h : toSimpleTarget e = .ok p) (he : Named I (ofExpr e)) :
    Named I (ofPattern p) := by
  unfold toSimpleTarget at h
  split at h
  · cases h
    simpa using he
  · cases h
    simpa using he
  · cases h

/-! ## Grammars -/

/-- A grammar whose parsers are good below a number of tokens: each consumes a token and gives a tree whose names are as
told. -/
structure NamedGrammar (I : Ident → Prop) (n : Nat) (g : Grammar) : Prop where
  assignment : Draws I AnyToken n 1 g.assignment fun e => Named I (ofExpr e)
  binary : ∀ least, Draws I AnyToken n 1 (g.binary least) fun e => Named I (ofExpr e)
  unary : Draws I AnyToken n 1 g.unary fun e => Named I (ofExpr e)
  statement : Draws I AnyToken n 1 g.statement fun s => Named I (ofStmt s)
  bindingTarget : Draws I AnyToken n 1 g.bindingTarget fun p => Named I (ofPattern p)

theorem NamedGrammar.le {g : Grammar} {n m : Nat} (hg : NamedGrammar I n g) (h : m ≤ n) : NamedGrammar I m g :=
  ⟨hg.assignment.le h, fun least => (hg.binary least).le h, hg.unary.le h, hg.statement.le h, hg.bindingTarget.le h⟩

variable {g : Grammar} {N : Token → Prop} {n m fuel : Nat} {t : Token}

/-! ## Bindings -/

theorem isEof_of_kind {k : Kind} (h : t.kind = k) (hk : k.isEnd = false) : t.isEof = false := by
  rw [Token.isEof_eq, h, hk]

/-- A key. One that is a name is the token it was read from. -/
theorem key_draws (hg : NamedGrammar I n g) :
    Draws I (· = t) n 1 (key g) fun k => Named I (ofKey k) ∧ ∀ id name, k = .name id → t.kind = .identifier name →
      id = ⟨name, t.span⟩ := by
  refine .peek fun t' ht' _ => ?_
  subst ht'
  split
  · rename_i hkind
    refine .skip_first (isEof_of_kind hkind rfl) (.bind hg.assignment.lax fun e he => ?_)
    exact .expectPunct fun _ => .pure ⟨by simpa using he, nofun⟩
  · rename_i hkind
    exact .skip_first (isEof_of_kind hkind rfl) (.pure ⟨by simp, nofun⟩)
  · rename_i hkind
    exact .skip_first (isEof_of_kind hkind rfl) (.pure ⟨by simp, nofun⟩)
  · refine .first propertyName_draws fun id hid => .pure ⟨by simp, ?_⟩
    rintro _ name ⟨⟩ hkind
    exact hid t' (fun _ h => h) name hkind

theorem bindingElement_draws (hg : NamedGrammar I n g) :
    Draws I N n 1 (bindingElement g) fun p => Named I (ofPattern p) := by
  refine .first hg.bindingTarget.any fun p hp => .eatPunct ?_ (.pure hp)
  exact .bind hg.assignment.lax fun e he => .pure (by simp [hp, he])

theorem bindingOrRest_draws (hg : NamedGrammar I n g) :
    Draws I N n 1 (bindingOrRest g) fun p => Named I (ofPattern p) :=
  .eatPunct (.first hg.bindingTarget fun p hp => .pure (by simpa using hp)) (bindingElement_draws hg)

theorem patternProp_draws (hg : NamedGrammar I n g) :
    Draws I N n 1 (patternProp g) fun p => Named I (ofPatternProps [p]) := by
  refine .eatPunct (.first bindingName_draws fun id hid => .pure (by simpa using hid)) ?_
  refine .peek fun t _ hnamed => .first (key_draws hg) fun k hk => ?_
  refine .eatPunct (.bind (bindingElement_draws hg).lax fun p hp => .pure (by simp [hk.1, hp])) ?_
  simp only [Bool.false_eq_true, if_false]
  split
  · rename_i id name hkind
    have hid : I id := by
      rw [hk.2 id name rfl hkind]
      exact hnamed name (by rw [hkind]; rfl)
    exact .eatPunct (.bind hg.assignment.lax fun e he => .pure (by simp [hid, he])) (.pure (by simp [hid]))
  · exact .fail nofun
  · exact .fail nofun

theorem bindingTarget_draws (hg : NamedGrammar I n g) :
    Draws I N (n + 1) 1 (bindingTarget g) fun p => Named I (ofPattern p) := by
  refine .peek fun t _ _ => ?_
  split
  · rename_i hkind
    refine .skip (isEof_of_kind hkind rfl) (.bound fun m hm => .bind (separatedWithHoles_draws (by simp)
      (bindingOrRest_draws (hg.le hm)) (Nat.le_refl m)) fun ps hps => ?_)
    exact .expectPunct fun _ => .pure (by simpa [named_patterns] using hps)
  · rename_i hkind
    refine .skip (isEof_of_kind hkind rfl) (.bound fun m hm => .bind (separated_draws
      (patternProp_draws (hg.le hm)) (Nat.le_refl m)) fun ps hps => ?_)
    refine .expectPunct fun _ => .pure ?_
    rw [ofPattern, named_cons, named_patternProps]
    exact ⟨trivial, hps⟩
  · exact .first bindingName_draws fun id hid => .pure (by simpa using hid)

theorem params_draws (hg : NamedGrammar I n g) : Draws I N n 0 (params g) fun ps => Named I (ofPatterns ps) := by
  refine .bound fun m hm => .bind (separated_draws (bindingOrRest_draws (hg.le hm)) (Nat.le_refl m)) fun ps hps => ?_
  exact .expectPunct fun _ => .pure (named_patterns.2 hps)

/-! ## Expressions without operators -/

theorem moreAssignments_draws (hg : NamedGrammar I n g) (hn : n ≤ fuel) :
    Draws I N n 0 (moreAssignments g fuel) fun es => Named I (ofExprs es) := by
  induction fuel generalizing N n with
  | zero =>
      obtain rfl : n = 0 := Nat.le_zero.1 hn
      exact .zero
  | succ fuel ih =>
      cases n with
      | zero => exact .zero
      | succ n =>
          refine .eatPunct (Draws.lax (.enter hg.assignment fun e he => ?_)) (.pure (by simp))
          exact .bind (ih (hg.le (Nat.le_succ n)) (by omega)) fun es hes => .pure (by simp [he, hes])

/-- One parser in front may have one token more than the grammar. -/
theorem sequence_draws (hg : NamedGrammar I n g) {first : Parser Expr}
    (hfirst : Draws I N m 1 first fun e => Named I (ofExpr e)) (hm : m ≤ n + 1) :
    Draws I N m 1 (sequence g first) fun e => Named I (ofExpr e) := by
  refine hfirst.seq (j := 0) (fun e he => .atPunct fun b => ?_) hm (Nat.le_refl _)
  cases b with
  | false => exact .pure he
  | true =>
      refine .bound fun m hm => .bind (moreAssignments_draws (hg.le hm) (Nat.le_refl m)) fun es hes => .pure ?_
      simp [he, hes]

theorem expression_draws (hg : NamedGrammar I n g) : Draws I N n 1 (expression g) fun e => Named I (ofExpr e) :=
  sequence_draws hg hg.assignment.any (Nat.le_succ n)

theorem item_draws (hg : NamedGrammar I n g) : Draws I N n 1 (item g) fun i => Named I (ofItems [i]) :=
  .eatPunct (.first hg.assignment fun e he => .pure (by simpa using he))
    (.first hg.assignment.any fun e he => .pure (by simpa using he))

theorem templateRest_draws (hg : NamedGrammar I n g) (start : Span) (parts : List TemplatePart) {es : List Expr}
    (hes : ∀ e ∈ es, Named I (ofExpr e)) (hn : n ≤ fuel) :
    Draws I N n 0 (templateRest g start parts es fuel) fun e => Named I (ofExpr e) := by
  induction fuel generalizing N n parts es with
  | zero =>
      obtain rfl : n = 0 := Nat.le_zero.1 hn
      exact .zero
  | succ fuel ih =>
      cases n with
      | zero => exact .zero
      | succ n =>
          have hmore : ∀ e, Named I (ofExpr e) → ∀ e' ∈ e :: es, Named I (ofExpr e') :=
            fun e he => List.forall_mem_cons.2 ⟨he, hes⟩
          refine Draws.lax (.enter (expression_draws hg) fun e he => .advance fun t _ _ => ?_)
          split
          · exact ih (hg.le (Nat.le_succ n)) _ (hmore e he) (by omega)
          · refine .pure ?_
            rw [ofExpr, named_cons, named_exprs]
            exact ⟨trivial, fun e' he' => hmore e he e' (List.mem_reverse.1 he')⟩
          · exact .fail nofun

theorem property_draws (hg : NamedGrammar I n g) : Draws I N n 1 (property g) fun p => Named I (ofProperties [p]) := by
  refine .peek fun t _ hnamed => ?_
  split
  · rename_i hmark
    refine .skip_first (Draws.isEof_of_isPunct hmark) (.bind hg.assignment.lax fun e he => .pure ?_)
    simpa using he
  · refine .first (key_draws hg) fun k hk => ?_
    refine .eatPunct (.bind hg.assignment.lax fun e he => .pure (by simp [hk.1, he])) (.peek fun next _ _ => ?_)
    split
    · exact .fail nofun
    · split
      · rename_i id name hkind
        have hid : I id := by
          rw [hk.2 id name rfl hkind]
          exact hnamed name (by rw [hkind]; rfl)
        exact .pure (by simpa using hid)
      · exact .unexpected

theorem statements_draws (hg : NamedGrammar I n g) (hn : n ≤ fuel) :
    Draws I N n 0 (statements g fuel) fun ss => Named I (ofStmts ss) := by
  induction fuel generalizing N n with
  | zero =>
      obtain rfl : n = 0 := Nat.le_zero.1 hn
      exact .zero
  | succ fuel ih =>
      cases n with
      | zero => exact .zero
      | succ n =>
          refine .peek fun t _ _ => ?_
          split
          · exact .pure (by simp)
          · split
            · exact .unexpected
            · refine Draws.lax (.enter hg.statement.any fun s hs => ?_)
              exact .bind (ih (hg.le (Nat.le_succ n)) (by omega)) fun ss hss => .pure (by simp [hs, hss])

theorem block_draws (hg : NamedGrammar I n g) : Draws I N (n + 1) 1 (block g) fun b => Named I (ofBlock b) := by
  refine .expectPunct_enter fun _ => .bound fun m hm => .bind (statements_draws (hg.le hm) (Nat.le_refl m)) fun ss hss => ?_
  exact .expectPunct fun _ => .pure (by simpa using hss)

theorem functionDef_draws (hg : NamedGrammar I n g) (hend : t.isEof = false) :
    Draws I (· = t) (n + 1) 1 (functionDef g) fun fn => Named I (ofFunction fn) := by
  have hrest : ∀ name : Option Ident, ∀ start : Token, Draws I AnyToken n 0 (expectPunct .openParen >>= fun _ => params g >>=
      fun ps => block g >>= fun body => pure (FunctionDef.mk name ps body (start.span.merge body.span)))
      fun fn => Named I (ofFunction fn) := by
    intro name start
    refine .expectPunct fun _ => .bind (params_draws hg) fun ps hps => ?_
    exact .bind ((block_draws hg).le (Nat.le_succ n)).lax fun body hbody => .pure (by simp [hps, hbody])
  refine .skip hend (.atPunct fun b => ?_)
  cases b with
  | true => exact (hrest none t).any
  | false =>
      have hname : ∀ {N}, Draws I N n 1 (some <$> bindingName) fun _ => True := .map (bindingName_draws.mono fun _ _ => trivial)
      exact .bind hname.lax fun name _ => hrest name t

theorem primary_draws (hg : NamedGrammar I n g) : Draws I N (n + 1) 1 (primary g) fun e => Named I (ofExpr e) := by
  refine .peek fun t _ hnamed => ?_
  have hliteral : ∀ value, t.isEof = false →
      Draws I (· = t) (n + 1) 1 (advance >>= fun _ => pure (Expr.literal ⟨value, t.text⟩ t.span)) fun e =>
        Named I (ofExpr e) := fun value hend => .skip hend (.pure (by simp))
  split
  · rename_i name hkind
    have hname := hnamed name (by rw [hkind]; rfl)
    exact .skip (isEof_of_kind hkind rfl) (.pure (by simpa using hname))
  · rename_i hkind
    have hname := hnamed "async" (by rw [hkind]; rfl)
    exact .skip (isEof_of_kind hkind rfl) (.pure (by simpa using hname))
  · rename_i hkind
    exact hliteral _ (isEof_of_kind hkind rfl)
  · rename_i hkind
    exact hliteral _ (isEof_of_kind hkind rfl)
  · rename_i hkind
    exact hliteral _ (isEof_of_kind hkind rfl)
  · rename_i hkind
    exact hliteral _ (isEof_of_kind hkind rfl)
  · rename_i hkind
    exact hliteral _ (isEof_of_kind hkind rfl)
  · rename_i hkind
    exact .skip (isEof_of_kind hkind rfl) (.pure (by simp))
  · rename_i hkind
    exact .first (functionDef_draws hg (isEof_of_kind hkind rfl)) fun fn hfn => .pure (by simpa using hfn)
  · rename_i hkind
    exact .skip (isEof_of_kind hkind rfl) (.pure (by simp))
  · rename_i hkind
    exact .skip (isEof_of_kind hkind rfl) (.bound fun m hm => templateRest_draws (hg.le hm) _ _ nofun (Nat.le_refl m))
  · rename_i hkind
    refine .skip (isEof_of_kind hkind rfl) (.bind (expression_draws hg).lax fun e he => ?_)
    exact .expectPunct fun _ => .pure he
  · rename_i hkind
    refine .skip (isEof_of_kind hkind rfl) (.bound fun m hm => .bind (separatedWithHoles_draws (P := fun i =>
      Named I (ofItems [i])) (by simp) (item_draws (hg.le hm)) (Nat.le_refl m)) fun is his => ?_)
    refine .expectPunct fun _ => .pure ?_
    rw [ofExpr, named_cons, named_items]
    exact ⟨trivial, his⟩
  · rename_i hkind
    refine .skip (isEof_of_kind hkind rfl) (.bound fun m hm => .bind (separated_draws
      (property_draws (hg.le hm)) (Nat.le_refl m)) fun ps hps => ?_)
    refine .expectPunct fun _ => .pure ?_
    rw [ofExpr, named_cons, named_properties]
    exact ⟨trivial, hps⟩
  · exact .unexpected

/-! ## Chains -/

theorem computedMember_draws (hg : NamedGrammar I n g) {o : Expr} (ho : Named I (ofExpr o)) (optional : Bool) :
    Draws I N n 0 (computedMember g o optional) fun e => Named I (ofExpr e) := by
  refine .bind (expression_draws hg).lax fun k hk => .expectPunct fun _ => .spanFrom fun span => .pure ?_
  simp [ho, hk]

theorem call_draws (hg : NamedGrammar I n g) {callee : Expr} (hcallee : Named I (ofExpr callee)) (optional : Bool) :
    Draws I N (n + 1) 1 (call g callee optional) fun e => Named I (ofExpr e) := by
  refine .expectPunct_enter fun _ => .bound fun m hm => .bind (separated_draws (item_draws (hg.le hm)) (Nat.le_refl m))
    fun args hargs => .expectPunct fun _ => .spanFrom fun span => .pure ?_
  rw [ofExpr, named_cons, named_append, named_items]
  exact ⟨trivial, hcallee, hargs⟩

theorem chain_draws (hg : NamedGrammar I n g) {e : Expr} (he : Named I (ofExpr e)) (hn : n ≤ fuel) :
    Draws I N n 0 (chain g e fuel) fun e => Named I (ofExpr e) := by
  induction fuel generalizing N n e with
  | zero =>
      obtain rfl : n = 0 := Nat.le_zero.1 hn
      exact .zero
  | succ fuel ih =>
      cases n with
      | zero => exact .zero
      | succ n =>
          have hless := hg.le (Nat.le_succ n)
          have hmore : ∀ {N : Token → Prop} {e : Expr}, Named I (ofExpr e) →
              Draws I N n 0 (chain g e fuel) fun e => Named I (ofExpr e) := fun he => ih hless he (by omega)
          refine .peek fun t _ _ => ?_
          split
          · rename_i hkind
            refine Draws.lax (.skip (isEof_of_kind hkind rfl) (.bind propertyName_draws.lax fun id _ => ?_))
            exact .spanFrom fun span => hmore (by simpa using he)
          · rename_i hkind
            refine Draws.lax (.skip (isEof_of_kind hkind rfl) (.atPunct fun b => ?_))
            cases b with
            | true =>
                have hcall : ∀ {N : Token → Prop}, Draws I N n 0 (call g e true >>= fun e' => chain g e' fuel) fun e =>
                    Named I (ofExpr e) := .bind ((call_draws hless he true).le (Nat.le_succ n)).lax fun e' he' => hmore he'
                exact .eatPunct hcall hcall
            | false =>
                refine .eatPunct (.bind (computedMember_draws hless he true) fun e' he' => hmore he') ?_
                refine .bind propertyName_draws.lax fun id _ => .spanFrom fun span => hmore ?_
                simpa using he
          · rename_i hkind
            refine Draws.lax (.skip (isEof_of_kind hkind rfl) ?_)
            exact .bind (computedMember_draws hless he false) fun e' he' => hmore he'
          · exact Draws.lax (.enter (call_draws hless he false) fun e' he' => hmore he')
          · exact .fail nofun
          · exact .fail nofun
          · exact .pure he

end Parse
end FieldScript
