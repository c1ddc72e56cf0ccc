import FieldScript.Proofs.Parse.Consumes
import FieldScript.Proofs.Parse.ReadBindings

/-!
# Trees that are read are legible: patterns and expressions

What a parser makes of sound tokens is legible, and it has an access for each point that was consumed. For each parser
this follows if it holds of the grammar that the parser recurses through (`SoundGrammar`).
-/

namespace FieldScript.Parse

open Token (Kind Stream)
open Render (Mode)
open Node

/-! ## Sound trees -/

/-- An expression that is legible, with the number of its points. -/
def SoundExpr (e : Expr) (n : Nat) : Prop := e.Legible false ∧ dotted (ofExpr e) = n

def SoundItems (holes : Bool) (is : List Item) (n : Nat) : Prop := LegibleItems false holes is ∧ dotted (ofItems is) = n

def SoundKey (k : Key) (n : Nat) : Prop := k.Legible false ∧ dotted (ofKey k) = n

def SoundProperties (ps : List Property) (n : Nat) : Prop := LegibleProperties false ps ∧ dotted (ofProperties ps) = n

def SoundPattern (mode : Mode) (place : Place) (p : Pattern) (n : Nat) : Prop :=
  p.Legible false mode place ∧ dotted (ofPattern p) = n

def SoundPatterns (mode : Mode) (place : Place) (ps : List Pattern) (n : Nat) : Prop :=
  LegiblePatterns false mode place ps ∧ dotted (ofPatterns ps) = n

def SoundPatternProps (mode : Mode) (ps : List PatternProp) (n : Nat) : Prop :=
  LegiblePatternProps false mode ps ∧ dotted (ofPatternProps ps) = n

def SoundStmt (s : Stmt) (n : Nat) : Prop := s.Legible false ∧ dotted (ofStmt s) = n

def SoundStmts (ss : List Stmt) (n : Nat) : Prop := LegibleStmts false ss ∧ dotted (ofStmts ss) = n

def SoundBlock (b : Block) (n : Nat) : Prop := b.Legible false ∧ dotted (ofBlock b) = n

/-- A grammar whose parsers all give sound trees. -/
structure SoundGrammar (g : Grammar) : Prop where
  assignment : Consumes AnyToken g.assignment SoundExpr
  binary : ∀ least, Consumes AnyToken (g.binary least) SoundExpr
  unary : Consumes AnyToken g.unary SoundExpr
  statement : Consumes AnyToken g.statement SoundStmt
  bindingTarget : Consumes AnyToken g.bindingTarget (SoundPattern .bind .target)

variable {g : Grammar} {N : Token → Prop} {t : Token}

/-! ## Targets of assignments -/

/-- What can be a target can be an element or entry. -/
theorem legible_of_target {settled : Bool} {mode : Mode} {p : Pattern} (h : p.Legible settled mode .target) (place : Place) :
    p.Legible settled mode place := by
  cases p with
  | assign p default => cases h.1
  | rest p => cases h.1
  | hole => cases h
  | _ => exact h

theorem exists_of_map {α β : Type} {x : Target α} {f : α → β} {b : β} (h : x.map f = .ok b) : ∃ a, x = .ok a ∧ f a = b := by
  cases x with
  | error fault => cases h
  | ok a => exact ⟨a, rfl, Except.ok.inj h⟩

theorem exists_of_target_bind {α β : Type} {x : Target α} {f : α → Target β} {b : β} (h : (x >>= f) = .ok b) :
    ∃ a, x = .ok a ∧ f a = .ok b := by
  cases x with
  | error fault => cases h
  | ok a => exact ⟨a, rfl, h⟩

mutual

theorem toPattern_sound (e : Expr) {p : Pattern} (h : toPattern e = .ok p) (he : e.Legible false) :
    SoundPattern .assign .target p (dotted (ofExpr e)) := by
  match e with
  | .identifier name span =>
      cases h
      exact ⟨he, rfl⟩
  | .member o k false span =>
      cases h
      exact ⟨⟨rfl, rfl, he⟩, by simp [ofPattern, isDotted]⟩
  | .array is span =>
      obtain ⟨ps, hps, rfl⟩ := exists_of_map h
      have hsound := itemsToPatterns_sound is hps he
      exact ⟨hsound.1, by simp [ofPattern, ofExpr, isDotted, hsound.2]⟩
  | .object ps span =>
      obtain ⟨qs, hqs, rfl⟩ := exists_of_map h
      have hsound := propsToPatterns_sound ps hqs he
      exact ⟨hsound.1, by simp [ofPattern, ofExpr, isDotted, hsound.2]⟩
  | .member _ _ true _ | .literal _ _ | .template _ _ _ | .call _ _ _ _ | .arrow _ _ _ _ | .function _ | .this _
  | .await _ _ | .unary _ _ _ | .update _ _ _ _ | .binary _ _ _ _ | .logical _ _ _ _ | .conditional _ _ _ _
  | .assign _ _ _ _ | .sequence _ _ => cases h
termination_by structural e

theorem toElement_sound (e : Expr) {p : Pattern} (h : toElement e = .ok p) (he : e.Legible false) (place : Place)
    (hplace : place.allowsDefault = true) : SoundPattern .assign place p (dotted (ofExpr e)) := by
  match e with
  | .assign .assign target value span =>
      cases h
      exact ⟨⟨hplace, he.2.2.1, he.2.2.2⟩, by simp [ofPattern, ofExpr, isDotted]⟩
  | .identifier name span =>
      cases h
      exact ⟨he, rfl⟩
  | .member o k false span =>
      cases h
      exact ⟨⟨rfl, rfl, he⟩, by simp [ofPattern, isDotted]⟩
  | .array is span =>
      obtain ⟨ps, hps, rfl⟩ := exists_of_map h
      have hsound := itemsToPatterns_sound is hps he
      exact ⟨hsound.1, by simp [ofPattern, ofExpr, isDotted, hsound.2]⟩
  | .object ps span =>
      obtain ⟨qs, hqs, rfl⟩ := exists_of_map h
      have hsound := propsToPatterns_sound ps hqs he
      exact ⟨hsound.1, by simp [ofPattern, ofExpr, isDotted, hsound.2]⟩
  | .member _ _ true _ | .literal _ _ | .template _ _ _ | .call _ _ _ _ | .arrow _ _ _ _ | .function _ | .this _
  | .await _ _ | .unary _ _ _ | .update _ _ _ _ | .binary _ _ _ _ | .logical _ _ _ _ | .conditional _ _ _ _
  | .assign (.binary _) _ _ _ | .assign (.logical _) _ _ _ | .sequence _ _ => cases h
termination_by structural e

theorem itemsToPatterns_sound (is : List Item) {ps : List Pattern} (h : itemsToPatterns is = .ok ps)
    (his : LegibleItems false true is) : SoundPatterns .assign .element ps (dotted (ofItems is)) := by
  match is with
  | [] =>
      cases h
      exact ⟨trivial, rfl⟩
  | .hole :: more =>
      obtain ⟨qs, hqs, ⟨⟩⟩ := exists_of_target_bind h
      have hmore := itemsToPatterns_sound more hqs his.2
      exact ⟨⟨rfl, hmore.1⟩, by simp [ofPatterns, ofPattern, ofItems, isDotted, hmore.2]⟩
  | .spread e :: more =>
      obtain ⟨p, hp, h⟩ := exists_of_target_bind h
      obtain ⟨qs, hqs, ⟨⟩⟩ := exists_of_target_bind h
      have hfirst := toPattern_sound e hp his.1
      have hmore := itemsToPatterns_sound more hqs his.2
      exact ⟨⟨⟨rfl, hfirst.1⟩, hmore.1⟩, by simp [ofPatterns, ofPattern, ofItems, isDotted, hfirst.2, hmore.2]⟩
  | .expr e :: more =>
      obtain ⟨p, hp, h⟩ := exists_of_target_bind h
      obtain ⟨qs, hqs, ⟨⟩⟩ := exists_of_target_bind h
      have hfirst := toElement_sound e hp his.1 .element rfl
      have hmore := itemsToPatterns_sound more hqs his.2
      exact ⟨⟨hfirst.1, hmore.1⟩, by simp [ofPatterns, ofItems, hfirst.2, hmore.2]⟩
termination_by structural is

theorem propsToPatterns_sound (ps : List Property) {qs : List PatternProp} (h : propsToPatterns ps = .ok qs)
    (hps : LegibleProperties false ps) : SoundPatternProps .assign qs (dotted (ofProperties ps)) := by
  match ps with
  | [] =>
      cases h
      exact ⟨trivial, rfl⟩
  | .spread e :: more =>
      obtain ⟨p, hp, h⟩ := exists_of_target_bind h
      obtain ⟨qs, hqs, ⟨⟩⟩ := exists_of_target_bind h
      have hfirst := toPattern_sound e hp hps.1
      have hmore := propsToPatterns_sound more hqs hps.2
      exact ⟨⟨nofun, hfirst.1, hmore.1⟩, by simp [ofPatternProps, ofProperties, hfirst.2, hmore.2]⟩
  | .init k e shorthand span :: more =>
      obtain ⟨p, hp, h⟩ := exists_of_target_bind h
      obtain ⟨qs, hqs, ⟨⟩⟩ := exists_of_target_bind h
      have hfirst := toElement_sound e hp hps.2.2.1 .entry rfl
      have hmore := propsToPatterns_sound more hqs hps.2.2.2
      refine ⟨⟨fun hshort => ?_, hps.2.1, hfirst.1, hmore.1⟩, by simp [ofPatternProps, ofProperties, hfirst.2, hmore.2]⟩
      obtain ⟨id, span', rfl, rfl, hname⟩ := hps.1 hshort
      cases hp
      exact ⟨⟨id, span', rfl, hname, .inl rfl⟩, fun _ => rfl⟩
termination_by structural ps

end

theorem toSimpleTarget_sound {e : Expr} {p : Pattern} (h : toSimpleTarget e = .ok p) (he : e.Legible false) :
    p.isSimple = true ∧ SoundPattern .assign .target p (dotted (ofExpr e)) := by
  unfold toSimpleTarget at h
  split at h
  · cases h
    exact ⟨rfl, he, rfl⟩
  · cases h
    exact ⟨rfl, ⟨rfl, rfl, he⟩, by simp [ofPattern, isDotted]⟩
  · cases h

/-! ## Bindings -/

theorem literal_legible {value : LiteralValue} {t : Token} (h : t.kind.Fits t.text.toList)
    (hkind : (∃ x, value = .number x ∧ t.kind = .number x) ∨ (∃ s, value = .string s ∧ t.kind = .string s)) :
    (Literal.mk value t.text).isKey = true ∧ (Literal.mk value t.text).Legible := by
  rcases hkind with ⟨x, rfl, hkind⟩ | ⟨s, rfl, hkind⟩
  · rw [hkind] at h
    exact ⟨rfl, h⟩
  · rw [hkind] at h
    exact ⟨rfl, h⟩

/-- A key. One that is a name is the token it was read from. -/
theorem key_consumes (hg : SoundGrammar g) :
    Consumes (· = t) (key g) fun k n => SoundKey k n ∧ ∀ id name, k = .name id → t.kind = .identifier name →
      id.name = name ∧ Token.wordKind name = .identifier name := by
  refine .peek fun t' ht' hfits => ?_
  subst ht'
  split
  · rename_i hkind
    refine .skip (by rw [hkind]; rfl) (.bind hg.assignment ?_)
    rintro e _ ⟨he, rfl⟩
    exact .expectPunct (by decide) fun _ => .pure ⟨⟨he, by simp [ofKey]⟩, nofun⟩
  · rename_i s hkind
    refine .skip (by rw [hkind]; rfl) (.pure ⟨⟨literal_legible hfits (.inr ⟨s, rfl, hkind⟩), rfl⟩, nofun⟩)
  · rename_i x hkind
    refine .skip (by rw [hkind]; rfl) (.pure ⟨⟨literal_legible hfits (.inl ⟨x, rfl, hkind⟩), rfl⟩, nofun⟩)
  · refine .bind (propertyName_consumes (t := t') fun _ h => h) ?_
    rintro id _ ⟨hword, rfl, hname⟩
    refine .pure ⟨⟨hword, rfl⟩, ?_⟩
    rintro _ name ⟨⟩ hkind
    exact hname name hkind

theorem bindingElement_consumes (hg : SoundGrammar g) {place : Place} (hplace : place.allowsDefault = true) :
    Consumes N (bindingElement g) (SoundPattern .bind place) := by
  refine .bind hg.bindingTarget.any ?_
  rintro p _ ⟨hp, rfl⟩
  refine .eatPunct (by decide) (.bind hg.assignment ?_) (.pure ⟨legible_of_target hp place, rfl⟩)
  rintro e _ ⟨he, rfl⟩
  exact .pure ⟨⟨hplace, hp, he⟩, by simp [ofPattern, isDotted]⟩

theorem bindingOrRest_consumes (hg : SoundGrammar g) {place : Place} (hplace : place.allowsDefault = true)
    (hrest : place.allowsRest = true) : Consumes N (bindingOrRest g) (SoundPattern .bind place) := by
  refine .eatPunct (by decide) (.bind hg.bindingTarget ?_) (bindingElement_consumes hg hplace)
  rintro p _ ⟨hp, rfl⟩
  exact .pure ⟨⟨hrest, hp⟩, by simp [ofPattern, isDotted]⟩

theorem patternProp_consumes (hg : SoundGrammar g) :
    Consumes N (patternProp g) fun p n => SoundPatternProps .bind [p] n := by
  refine .eatPunct (by decide) (.bind bindingName_consumes ?_) (.peek fun t _ _ => .bind (key_consumes hg) ?_)
  · rintro id _ ⟨hname, rfl⟩
    exact .pure ⟨⟨fun _ => rfl, hname, trivial⟩, rfl⟩
  · rintro k _ ⟨⟨hk, rfl⟩, hname⟩
    refine .eatPunct (by decide) (.bind (bindingElement_consumes hg (show Place.entry.allowsDefault = true from rfl)) ?_) ?_
    · rintro p _ ⟨hp, rfl⟩
      exact .pure ⟨⟨nofun, hk, hp, trivial⟩, by simp [ofPatternProps]⟩
    · simp only [Bool.false_eq_true, if_false]
      split
      · rename_i id name hkind
        obtain ⟨hid, hword⟩ := hname id name rfl hkind
        have hident : IsName id.name := ⟨hk, .inl (by rw [hid, hword])⟩
        refine .eatPunct (by decide) (.bind hg.assignment ?_) (.pure ?_)
        · rintro e _ ⟨he, rfl⟩
          refine .pure ⟨⟨fun _ => ⟨⟨id, id.span, rfl, by rw [hid, hword], .inr ⟨e, rfl⟩⟩, nofun⟩, hk, ⟨rfl, hident, he⟩, trivial⟩, ?_⟩
          simp [ofPatternProps, ofPattern, isDotted]
        · refine ⟨⟨fun _ => ⟨⟨id, id.span, rfl, by rw [hid, hword], .inl rfl⟩, nofun⟩, hk, hident, trivial⟩, ?_⟩
          simp [ofPatternProps, ofPattern, isDotted]
      · exact .fail
      · exact .fail

theorem soundPatterns_cons {mode : Mode} {place : Place} (p : Pattern) (ps : List Pattern) (n m : Nat)
    (hp : SoundPattern mode place p n) (hps : SoundPatterns mode place ps m) : SoundPatterns mode place (p :: ps) (n + m) :=
  ⟨⟨hp.1, hps.1⟩, by rw [ofPatterns, dotted_append, hp.2, hps.2]⟩

theorem soundPatternProps_cons {mode : Mode} (p : PatternProp) (ps : List PatternProp) (n m : Nat)
    (hp : SoundPatternProps mode [p] n) (hps : SoundPatternProps mode ps m) : SoundPatternProps mode (p :: ps) (n + m) := by
  obtain ⟨hp, rfl⟩ := hp
  obtain ⟨hps, rfl⟩ := hps
  cases p with
  | init k p shorthand => exact ⟨⟨hp.1, hp.2.1, hp.2.2.1, hps⟩, by simp [ofPatternProps, Nat.add_assoc]⟩
  | rest p => exact ⟨⟨hp.1, hp.2.1, hps⟩, by simp [ofPatternProps]⟩

theorem bindingTarget_consumes (hg : SoundGrammar g) : Consumes N (bindingTarget g) (SoundPattern .bind .target) := by
  refine .peek fun t _ _ => ?_
  split
  · rename_i hkind
    refine .skip (by rw [hkind]; rfl) (.bound fun fuel => .bind (separatedWithHoles_consumes (P := SoundPattern .bind .element)
      (show SoundPattern .bind .element .hole 0 from ⟨rfl, rfl⟩) (bindingOrRest_consumes hg rfl rfl) ⟨trivial, rfl⟩
      soundPatterns_cons fuel) ?_)
    rintro ps _ ⟨hps, rfl⟩
    exact .expectPunct (by decide) fun _ => .pure ⟨hps, by simp [ofPattern, isDotted]⟩
  · rename_i hkind
    refine .skip (by rw [hkind]; rfl) (.bound fun fuel => .bind (separated_consumes (patternProp_consumes hg)
      ⟨trivial, rfl⟩ soundPatternProps_cons fuel) ?_)
    rintro ps _ ⟨hps, rfl⟩
    exact .expectPunct (by decide) fun _ => .pure ⟨hps, by simp [ofPattern, isDotted]⟩
  · refine .bind bindingName_consumes ?_
    rintro id _ ⟨hname, rfl⟩
    exact .pure ⟨hname, rfl⟩

theorem params_consumes (hg : SoundGrammar g) : Consumes N (params g) (SoundPatterns .bind .param) := by
  refine .bound fun fuel => .bind (separated_consumes (P := SoundPattern .bind .param) (bindingOrRest_consumes hg rfl rfl)
    ⟨trivial, rfl⟩ soundPatterns_cons fuel) ?_
  rintro ps _ ⟨hps, rfl⟩
  exact .expectPunct (by decide) fun _ => .pure ⟨hps, rfl⟩

/-! ## Expressions without operators -/

def SoundExprs (es : List Expr) (n : Nat) : Prop := LegibleExprs false es ∧ dotted (ofExprs es) = n

theorem moreAssignments_consumes (hg : SoundGrammar g) (fuel : Nat) : Consumes N (moreAssignments g fuel) SoundExprs := by
  induction fuel generalizing N with
  | zero => exact .exhausted
  | succ fuel ih =>
      refine .eatPunct (by decide) (.bind hg.assignment ?_) (.pure ⟨trivial, rfl⟩)
      rintro e _ ⟨he, rfl⟩
      refine .bind ih ?_
      rintro es _ ⟨hes, rfl⟩
      exact .pure ⟨⟨he, hes⟩, by simp [ofExprs]⟩

/-- Where a comma comes next, there is a further expression. -/
theorem moreAssignments_consumes_comma (hg : SoundGrammar g) (hnext : ∀ t, N t → t.isPunct .comma = true) (fuel : Nat) :
    Consumes N (moreAssignments g fuel) fun es n => es ≠ [] ∧ SoundExprs es n := by
  cases fuel with
  | zero => exact .exhausted
  | succ fuel =>
      refine .eatPunct_next (by decide) hnext (.bind hg.assignment ?_)
      rintro e _ ⟨he, rfl⟩
      refine .bind (moreAssignments_consumes hg fuel) ?_
      rintro es _ ⟨hes, rfl⟩
      exact .pure ⟨List.cons_ne_nil e es, ⟨he, hes⟩, by simp [ofExprs]⟩

theorem sequence_consumes (hg : SoundGrammar g) {first : Parser Expr} (hfirst : Consumes N first SoundExpr) :
    Consumes N (sequence g first) SoundExpr := by
  refine .bind hfirst ?_
  rintro e _ ⟨he, rfl⟩
  refine .atPunct fun b => ?_
  cases b with
  | false => exact .pure ⟨he, rfl⟩
  | true =>
      refine .bound fun fuel => .bind (moreAssignments_consumes_comma hg (fun t ht => ht.2) fuel) ?_
      rintro es _ ⟨hne, hes, rfl⟩
      have hlength := List.length_pos_iff.2 hne
      exact .pure ⟨⟨by rw [List.length_cons]; omega, he, hes⟩, by simp [ofExpr, ofExprs, isDotted]⟩

theorem expression_consumes (hg : SoundGrammar g) : Consumes N (expression g) SoundExpr :=
  sequence_consumes hg hg.assignment.any

/-- An element or argument, which is never left out. -/
theorem item_consumes (hg : SoundGrammar g) (holes : Bool) : Consumes N (item g) fun i n => SoundItems holes [i] n := by
  refine .eatPunct (by decide) (.bind hg.assignment ?_) (.bind hg.assignment.any ?_)
  · rintro e _ ⟨he, rfl⟩
    exact .pure ⟨⟨he, trivial⟩, by simp [ofItems]⟩
  · rintro e _ ⟨he, rfl⟩
    exact .pure ⟨⟨he, trivial⟩, by simp [ofItems]⟩

theorem soundItems_cons {holes : Bool} (i : Item) (is : List Item) (n m : Nat) (hi : SoundItems holes [i] n)
    (his : SoundItems holes is m) : SoundItems holes (i :: is) (n + m) := by
  obtain ⟨hi, rfl⟩ := hi
  obtain ⟨his, rfl⟩ := his
  cases i with
  | expr e => exact ⟨⟨hi.1, his⟩, by simp [ofItems]⟩
  | spread e => exact ⟨⟨hi.1, his⟩, by simp [ofItems]⟩
  | hole => exact ⟨⟨hi.1, his⟩, by simp [ofItems]⟩

/-- The substitutions of a template and the texts between them, behind those that are read already. -/
theorem templateRest_consumes (hg : SoundGrammar g) (start : Span) (parts : List TemplatePart) (es : List Expr) (fuel : Nat) :
    Consumes N (templateRest g start parts es fuel) fun e n => ∃ parts' es' span,
      e = .template (parts.reverse ++ parts') (es.reverse ++ es') span ∧ parts'.length = es'.length ∧
        (∀ part ∈ parts', Token.IsPart part) ∧ SoundExprs es' n := by
  induction fuel generalizing N parts es with
  | zero => exact .exhausted
  | succ fuel ih =>
      refine .bind (expression_consumes hg) ?_
      rintro e _ ⟨he, rfl⟩
      refine .advance fun t _ hfits => ?_
      split
      · rename_i part hkind
        rw [hkind] at hfits
        refine (ih (N := AnyToken) (part :: parts) (e :: es)).mono ?_
        rintro _ n ⟨parts', es', span, rfl, hlength, hparts, hes, rfl⟩
        refine ⟨part :: parts', e :: es', span, by simp, by simp [hlength], ?_, ⟨he, hes⟩, ?_⟩
        · exact List.forall_mem_cons.2 ⟨hfits, hparts⟩
        · simp [ofExprs, hkind, Kind.isDot]
      · rename_i part hkind
        rw [hkind] at hfits
        refine .pure ⟨[part], [e], start.merge t.span, by simp, rfl, ?_, ⟨he, trivial⟩, ?_⟩
        · exact List.forall_mem_cons.2 ⟨hfits, List.forall_mem_nil _⟩
        · simp [ofExprs, hkind, Kind.isDot]
      · exact .fail

theorem property_consumes (hg : SoundGrammar g) : Consumes N (property g) fun p n => SoundProperties [p] n := by
  refine .peek fun t _ _ => ?_
  split
  · rename_i hmark
    refine .skip (Consumes.isDot_of_isPunct (by decide) hmark) (.bind hg.assignment ?_)
    rintro e _ ⟨he, rfl⟩
    exact .pure ⟨⟨he, trivial⟩, by simp [ofProperties]⟩
  · refine .bind (key_consumes hg) ?_
    rintro k _ ⟨⟨hk, rfl⟩, hname⟩
    refine .eatPunct (by decide) (.bind hg.assignment ?_) (.peek fun next _ _ => ?_)
    · rintro e _ ⟨he, rfl⟩
      exact .pure ⟨⟨nofun, hk, he, trivial⟩, by simp [ofProperties]⟩
    · split
      · exact .fail
      · split
        · rename_i id name hkind
          obtain ⟨hid, hword⟩ := hname id name rfl hkind
          have hshort : Token.wordKind id.name = .identifier id.name := by rw [hid, hword]
          refine .pure ⟨⟨fun _ => ⟨id, id.span, rfl, rfl, hshort⟩, hk, ⟨hk, .inl hshort⟩, trivial⟩, ?_⟩
          simp [ofProperties, ofExpr, isDotted]
        · exact .unexpected

theorem soundProperties_cons (p : Property) (ps : List Property) (n m : Nat) (hp : SoundProperties [p] n)
    (hps : SoundProperties ps m) : SoundProperties (p :: ps) (n + m) := by
  obtain ⟨hp, rfl⟩ := hp
  obtain ⟨hps, rfl⟩ := hps
  cases p with
  | init k e shorthand span => exact ⟨⟨hp.1, hp.2.1, hp.2.2.1, hps⟩, by simp [ofProperties, Nat.add_assoc]⟩
  | spread e => exact ⟨⟨hp.1, hps⟩, by simp [ofProperties]⟩

theorem statements_consumes (hg : SoundGrammar g) (fuel : Nat) : Consumes N (statements g fuel) SoundStmts := by
  induction fuel generalizing N with
  | zero => exact .exhausted
  | succ fuel ih =>
      refine .peek fun t _ _ => ?_
      split
      · exact .pure ⟨trivial, rfl⟩
      · split
        · exact .unexpected
        · refine .bind hg.statement.any ?_
          rintro s _ ⟨hs, rfl⟩
          refine .bind ih ?_
          rintro ss _ ⟨hss, rfl⟩
          exact .pure ⟨⟨hs, hss⟩, by simp [ofStmts]⟩

theorem block_consumes (hg : SoundGrammar g) : Consumes N (block g) SoundBlock := by
  refine .expectPunct (by decide) fun _ => .bound fun fuel => .bind (statements_consumes hg fuel) ?_
  rintro ss _ ⟨hss, rfl⟩
  exact .expectPunct (by decide) fun _ => .pure ⟨hss, by simp [ofBlock]⟩

/-- A function is legible only up to its points. -/
theorem functionDef_consumes (hg : SoundGrammar g) (hkind : t.kind.isDot = false) :
    Consumes (· = t) (functionDef g) fun fn n => dotted (ofFunction fn) = n := by
  have hrest : ∀ name : Option Ident, ∀ start : Token, Consumes AnyToken (expectPunct .openParen >>= fun _ => params g >>=
      fun ps => block g >>= fun body => pure (FunctionDef.mk name ps body (start.span.merge body.span)))
      fun fn n => dotted (ofFunction fn) = n := by
    intro name start
    refine .expectPunct (by decide) fun _ => .bind (params_consumes hg) ?_
    rintro ps _ ⟨-, rfl⟩
    refine .bind (block_consumes hg) ?_
    rintro body _ ⟨-, rfl⟩
    exact .pure (by simp [ofFunction])
  refine .skip hkind (.atPunct fun b => ?_)
  cases b with
  | true => exact (hrest none t).any
  | false =>
      have hname : ∀ {N}, Consumes N (some <$> bindingName) fun _ n => n = 0 := .map (bindingName_consumes.mono fun _ _ h => h.2)
      refine .bind hname ?_
      rintro name _ rfl
      exact (hrest name t).mono fun fn n hn => by rw [hn, Nat.zero_add]

theorem primary_consumes (hg : SoundGrammar g) : Consumes N (primary g) SoundExpr := by
  refine .peek fun t _ hfits => ?_
  have hliteral : ∀ value, (Literal.mk value t.text).Legible → t.kind.isDot = false →
      Consumes (· = t) (advance >>= fun _ => pure (Expr.literal ⟨value, t.text⟩ t.span)) SoundExpr :=
    fun value hlegible hdot => .skip hdot (.pure ⟨hlegible, rfl⟩)
  have hword : ∀ word : Keyword, t.kind = .keyword word → t.text = word.text := by
    intro word hkind
    rw [hkind] at hfits
    exact String.toList_inj.1 hfits
  split
  · rename_i name hkind
    rw [hkind] at hfits
    exact .skip (by rw [hkind]; rfl) (.pure ⟨isName_identifier hfits, rfl⟩)
  · rename_i hkind
    exact .skip (by rw [hkind]; rfl) (.pure ⟨isName_async, rfl⟩)
  · rename_i x hkind
    exact hliteral (.number x) (literal_legible hfits (.inl ⟨x, rfl, hkind⟩)).2 (by rw [hkind]; rfl)
  · rename_i s hkind
    exact hliteral (.string s) (literal_legible hfits (.inr ⟨s, rfl, hkind⟩)).2 (by rw [hkind]; rfl)
  · rename_i hkind
    exact hliteral (.bool true) (hword _ hkind) (by rw [hkind]; rfl)
  · rename_i hkind
    exact hliteral (.bool false) (hword _ hkind) (by rw [hkind]; rfl)
  · rename_i hkind
    exact hliteral .null (hword _ hkind) (by rw [hkind]; rfl)
  · rename_i hkind
    exact .skip (by rw [hkind]; rfl) (.pure ⟨rfl, rfl⟩)
  · rename_i hkind
    refine .bind (functionDef_consumes hg (by rw [hkind]; rfl)) ?_
    rintro fn _ rfl
    exact .pure ⟨rfl, by simp [ofExpr, isDotted]⟩
  · rename_i part hkind
    rw [hkind] at hfits
    exact .skip (by rw [hkind]; rfl) (.pure ⟨⟨rfl, List.forall_mem_cons.2 ⟨hfits, List.forall_mem_nil _⟩, trivial⟩, rfl⟩)
  · rename_i part hkind
    rw [hkind] at hfits
    refine .skip (by rw [hkind]; rfl) (.bound fun fuel => (templateRest_consumes hg t.span [part] [] fuel).mono ?_)
    rintro _ n ⟨parts, es, span, rfl, hlength, hparts, hes, rfl⟩
    refine ⟨⟨by simp [hlength], ?_, hes⟩, by simp [ofExpr, isDotted]⟩
    exact List.forall_mem_cons.2 ⟨hfits, hparts⟩
  · rename_i hkind
    refine .skip (by rw [hkind]; rfl) (.bind (expression_consumes hg) ?_)
    rintro e _ ⟨he, rfl⟩
    exact .expectPunct (by decide) fun _ => .pure ⟨he, rfl⟩
  · rename_i hkind
    refine .skip (by rw [hkind]; rfl) (.bound fun fuel => .bind (separatedWithHoles_consumes
      (P := fun i n => SoundItems true [i] n) (show SoundItems true [.hole] 0 from ⟨⟨rfl, trivial⟩, rfl⟩)
      (item_consumes hg true) ⟨trivial, rfl⟩ soundItems_cons fuel) ?_)
    rintro is _ ⟨his, rfl⟩
    exact .expectPunct (by decide) fun _ => .pure ⟨his, by simp [ofExpr, isDotted]⟩
  · rename_i hkind
    refine .skip (by rw [hkind]; rfl) (.bound fun fuel => .bind (separated_consumes (property_consumes hg) ⟨trivial, rfl⟩
      soundProperties_cons fuel) ?_)
    rintro ps _ ⟨hps, rfl⟩
    exact .expectPunct (by decide) fun _ => .pure ⟨hps, by simp [ofExpr, isDotted]⟩
  · exact .unexpected

/-! ## Chains -/

/-- An expression with the points behind another one. -/
def SoundBehind (e : Expr) (e' : Expr) (n : Nat) : Prop := e'.Legible false ∧ dotted (ofExpr e') = dotted (ofExpr e) + n

theorem computedMember_consumes (hg : SoundGrammar g) {o : Expr} (ho : o.Legible false) (optional : Bool) :
    Consumes N (computedMember g o optional) (SoundBehind o) := by
  refine .bind (expression_consumes hg) ?_
  rintro k _ ⟨hk, rfl⟩
  refine .expectPunct (by decide) fun _ => .spanFrom fun span => .pure ⟨⟨ho, hk⟩, ?_⟩
  simp [ofExpr, ofKey, Key.isName]

theorem call_consumes (hg : SoundGrammar g) {callee : Expr} (hcallee : callee.Legible false) (optional : Bool) :
    Consumes N (call g callee optional) (SoundBehind callee) := by
  refine .expectPunct (by decide) fun _ => .bound fun fuel => .bind (separated_consumes (item_consumes hg false)
    ⟨trivial, rfl⟩ soundItems_cons fuel) ?_
  rintro args _ ⟨hargs, rfl⟩
  refine .expectPunct (by decide) fun _ => .spanFrom fun span => .pure ⟨⟨hcallee, hargs⟩, ?_⟩
  simp [ofExpr, isDotted]

theorem chain_consumes (hg : SoundGrammar g) {e : Expr} (he : e.Legible false) (fuel : Nat) :
    Consumes N (chain g e fuel) (SoundBehind e) := by
  induction fuel generalizing N e with
  | zero => exact .exhausted
  | succ fuel ih =>
      have hmore : ∀ {N : Token → Prop} {x : Parser Expr}, Consumes N x (SoundBehind e) →
          Consumes N (x >>= fun e' => chain g e' fuel) (SoundBehind e) := by
        intro N x hx
        refine .bind hx fun e' n he' => (ih he'.1).mono fun e'' m he'' => ⟨he''.1, ?_⟩
        rw [he''.2, he'.2, Nat.add_assoc]
      refine .peek fun t _ _ => ?_
      split
      · rename_i hkind
        refine .advance fun t' ht' _ => ?_
        subst ht'
        refine .bind propertyName_word_consumes ?_
        rintro id _ ⟨hid, rfl⟩
        refine .spanFrom fun span => (ih (e := .member e (.name id) false span) ⟨he, hid⟩).mono fun e' m he' => ⟨he'.1, ?_⟩
        rw [he'.2, hkind]
        simp [ofExpr, ofKey, Key.isName, Kind.isDot]
        omega
      · rename_i hkind
        refine .skip (by rw [hkind]; rfl) (.atPunct fun b => ?_)
        cases b with
        | true => exact .eatPunct (by decide) (hmore (call_consumes hg he true)) (hmore (call_consumes hg he true))
        | false =>
            refine .eatPunct (by decide) (hmore (computedMember_consumes hg he true)) ?_
            refine .bind propertyName_word_consumes ?_
            rintro id _ ⟨hid, rfl⟩
            refine .spanFrom fun span => (ih (e := .member e (.name id) true span) ⟨he, hid⟩).mono fun e' m he' => ⟨he'.1, ?_⟩
            rw [he'.2]
            simp [ofExpr, ofKey, Key.isName]
      · rename_i hkind
        exact .skip (by rw [hkind]; rfl) (hmore (computedMember_consumes hg he false))
      · exact hmore (call_consumes hg he false)
      · exact .fail
      · exact .fail
      · exact .pure ⟨he, rfl⟩

end FieldScript.Parse
