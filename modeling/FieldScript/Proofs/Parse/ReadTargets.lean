import FieldScript.Proofs.Parse.ReadParts

/-!
# Reading back targets of assignments

A target is read as an expression, because it is known to be one only once the operator behind it is seen, and then
turned into a pattern. So what is read from its layout is an expression that stands for it.
-/

namespace FieldScript.Parse

open Token (Kind Lexeme Piece)
open Token.Piece (lexemes)
open Layout (commas)

variable {ls ls' : List Lexeme} {P : Kind → Bool} {n : Nat}

/-! ## Whole targets -/

/-- An expression that stands for a target. -/
def StandsFor (p : Pattern) (e : Expr) : Prop :=
  ∃ p', toPattern e = .ok p' ∧ p'.bare = p.bare ∧ (p.isSimple = true → toSimpleTarget e = .ok p')

/-- An expression that stands for an element or entry, which may have a default. -/
def StandsForElement (p : Pattern) (e : Expr) : Prop := ∃ p', toElement e = .ok p' ∧ p'.bare = p.bare

theorem toElement_of_toPattern {e : Expr} {p : Pattern} (h : toPattern e = .ok p) : toElement e = .ok p := by
  unfold toPattern at h
  split at h
  · cases h
    rfl
  · cases h
    rfl
  · exact h
  · exact h
  · cases h

theorem StandsFor.element {p : Pattern} {e : Expr} (h : StandsFor p e) : StandsForElement p e := by
  obtain ⟨p', hconvert, hbare, -⟩ := h
  exact ⟨p', toElement_of_toPattern hconvert, hbare⟩

/-- A target that is read back. -/
def TargetReadsBack (p : Pattern) : Prop := Operand (lexemes (Layout.pattern p)) (StandsFor p)

theorem ident_targetReadsBack {id : Ident} (h : IsName id.name) : TargetReadsBack (.ident id) := by
  refine (identifier_operand h).mono ?_
  rintro _ ⟨span, rfl⟩
  exact ⟨.ident ⟨id.name, span⟩, rfl, rfl, fun _ => rfl⟩

theorem member_targetReadsBack {e : Expr} (hplain : e.isPlainMember = true) (h : ReadsBack e) :
    TargetReadsBack (.member e) := by
  cases e with
  | member o k optional span =>
      cases optional with
      | true => cases hplain
      | false =>
          refine Operand.mono h.operand fun e' he' => ?_
          cases e' with
          | member o' k' optional' span' =>
              obtain rfl : optional' = false := by
                simp only [Expr.bare, Expr.member.injEq] at he'
                exact he'.2.2.1
              exact ⟨.member (.member o' k' false span'), rfl, by rw [Pattern.bare, Pattern.bare, he'], fun _ => rfl⟩
          | _ => simp at he'
  | _ => cases hplain

/-- A part of a target with its default. -/
theorem default_assignable {p : Pattern} {default : Expr} (hp : TargetReadsBack p) (hdefault : ReadsBack default) :
    Assignable (lexemes (Layout.pattern (.assign p default))) (StandsForElement (.assign p default)) := by
  have hlay : lexemes (Layout.pattern (.assign p default)) =
      lexemes (Layout.pattern p) ++ AssignOp.assign.lexeme :: lexemes (Layout.expr default) := by
    simp [Layout.pattern, AssignOp.lexeme, AssignOp.punct?]
  rw [hlay]
  have htarget : Unary (lexemes (Layout.pattern p)) fun e =>
      ∃ p', (if AssignOp.assign = .assign then toPattern e else toSimpleTarget e) = .ok p' ∧ p'.bare = p.bare :=
    (Operand.mono hp fun e he => by
      obtain ⟨p', hconvert, hbare, -⟩ := he
      exact ⟨p', by rwa [if_pos rfl], hbare⟩).unary
  refine htarget.assign rfl hdefault.assignable fun p' e' span hp' he' => ?_
  exact ⟨.assign p' e', rfl, by simp [hp', he']⟩

/-- A part of a target that is read back. -/
def PartReadsBack : Pattern → Prop
  | .assign p default => TargetReadsBack p ∧ ReadsBack default
  | .rest p => TargetReadsBack p
  | .hole => True
  | p => TargetReadsBack p

/-- Parts of targets that are neither left out nor take the rest. -/
def isPart : Pattern → Bool
  | .rest _ | .hole => false
  | _ => true

theorem part_assignable {p : Pattern} (h : PartReadsBack p) (hpart : isPart p = true) :
    Assignable (lexemes (Layout.pattern p)) (StandsForElement p) := by
  cases p with
  | assign p default => exact default_assignable h.1 h.2
  | rest p => cases hpart
  | hole => cases hpart
  | _ => exact (Operand.mono h fun _ he => he.element).unary.assignable

/-- Kinds of tokens that an element or entry of a pattern starts with. -/
def startsPart (k : Kind) : Bool :=
  k.isMark .ellipsis == false && !endsItem .closeParen k && !endsItem .closeBracket k && !endsItem .closeBrace k

theorem startsPart_of_isMark {k : Kind} (h : ∀ mark, mark ≠ .openParen → mark ≠ .openBracket → k.isMark mark = false) :
    startsPart k = true := by
  simp [startsPart, endsItem, h .ellipsis, h .comma, h .closeParen, h .closeBracket, h .closeBrace]

theorem pattern_starts {mode : Render.Mode} {place : Place} (p : Pattern) (h : p.Legible true mode place)
    (hpart : isPart p = true) : Starts startsPart (Layout.pattern p) := by
  match p with
  | .ident id => exact ⟨_, _, rfl, startsPart_of_isMark fun mark _ _ => isMark_wordKind id.name mark⟩
  | .array _ _ => exact ⟨_, _, rfl, rfl⟩
  | .object _ _ => exact ⟨_, _, rfl, rfl⟩
  | .assign p _ =>
      refine (pattern_starts p h.2.1 ?_).append _
      cases p with
      | rest _ => cases h.2.1.1
      | hole => cases h.2.1
      | _ => rfl
  | .rest _ => cases hpart
  | .member e =>
      refine (expr_starts e h.2.2).mono fun k hk => startsPart_of_isMark fun mark hparen hbracket => ?_
      exact beq_iff_eq.1 (isMark_of_startsExpr mark hparen hbracket hk)
  | .hole => cases hpart

theorem pattern_starts_not_ellipsis {mode : Render.Mode} {place : Place} (p : Pattern) (h : p.Legible true mode place)
    (hpart : isPart p = true) : Starts (fun k => k.isMark .ellipsis == false) (Layout.pattern p) :=
  (pattern_starts p h hpart).mono fun k hk => by
    simp only [startsPart, Bool.and_eq_true] at hk
    exact hk.1.1.1

theorem length_le_elements {p : Pattern} {ps : List Pattern} (h : p ∈ ps) : (lexemes (Layout.pattern p)).length ≤
    (lexemes (commasWithHoles Layout.pattern Render.Pattern.isHole ps)).length := length_le_commasWithHoles h

/-- The element that stands for a pattern. -/
def StandsForItem (p : Pattern) (i : Item) : Prop := ∃ p', itemsToPatterns [i] = .ok [p'] ∧ p'.bare = p.bare

theorem itemsToPatterns_cons {i : Item} {is : List Item} {p : Pattern} {ps : List Pattern}
    (hi : itemsToPatterns [i] = .ok [p]) (his : itemsToPatterns is = .ok ps) :
    itemsToPatterns (i :: is) = .ok (p :: ps) := by
  cases i with
  | hole =>
      cases hi
      show (itemsToPatterns is >>= _) = _
      rw [his]
      rfl
  | spread e =>
      change (toPattern e >>= _) = _ at hi ⊢
      cases he : toPattern e with
      | error fault =>
          rw [he] at hi
          cases hi
      | ok p' =>
          rw [he] at hi
          cases hi
          rw [his]
          rfl
  | expr e =>
      change (toElement e >>= _) = _ at hi ⊢
      cases he : toElement e with
      | error fault =>
          rw [he] at hi
          cases hi
      | ok p' =>
          rw [he] at hi
          cases hi
          rw [his]
          rfl

theorem itemsToPatterns_eq {ps : List Pattern} {is : List Item} (h : List.Forall₂ StandsForItem ps is) :
    ∃ ps', itemsToPatterns is = .ok ps' ∧ barePatterns ps' = barePatterns ps := by
  induction h with
  | nil => exact ⟨[], rfl, rfl⟩
  | @cons p i ps is hp _ ih =>
      obtain ⟨p', hi, hbare⟩ := hp
      obtain ⟨ps', his, hbares⟩ := ih
      exact ⟨p' :: ps', itemsToPatterns_cons hi his, by rw [barePatterns, barePatterns, hbare, hbares]⟩

/-- An element of an array as a part of a target. -/
theorem element_reads {p : Pattern} {place : Place} (hlegible : p.Legible true .assign place) (h : PartReadsBack p)
    (hhole : Render.Pattern.isHole p = false) {D : Nat} (hD : (lexemes (Layout.pattern p)).length ≤ D) :
    Reads (item (grammar D)) (lexemes (Layout.pattern p)) (endsItem .closeBracket) (StandsForItem p) := by
  cases hpart : isPart p with
  | true =>
      have hstarts := pattern_starts_not_ellipsis p hlegible hpart
      refine (item_reads_expr rfl (part_assignable h hpart) hD hstarts.begins).mono ?_
      rintro _ ⟨e, ⟨p', hconvert, hbare⟩, rfl⟩
      exact ⟨p', by show (toElement e >>= _) = _; rw [hconvert]; rfl, hbare⟩
  | false =>
      cases p with
      | rest p =>
          refine (item_reads_spread rfl (Operand.unary h).assignable (Nat.le_of_succ_le hD)).mono ?_
          rintro _ ⟨e, ⟨p', hconvert, hbare, -⟩, rfl⟩
          exact ⟨.rest p', by show (toPattern e >>= _) = _; rw [hconvert]; rfl,
            by rw [Pattern.bare, Pattern.bare, hbare]⟩
      | hole => cases hhole
      | _ => cases hpart

/-- The first token of an element that is not left out. -/
theorem element_starts {p : Pattern} {mode : Render.Mode} {place : Place} (h : p.Legible true mode place)
    (hhole : Render.Pattern.isHole p = false) :
    Starts (fun k => !endsItem .closeParen k && !endsItem .closeBracket k && !endsItem .closeBrace k) (Layout.pattern p) := by
  cases hpart : isPart p with
  | true =>
      refine (pattern_starts p h hpart).mono fun k hk => ?_
      simp only [startsPart, Bool.and_eq_true] at hk ⊢
      exact ⟨⟨hk.1.1.2, hk.1.2⟩, hk.2⟩
  | false =>
      cases p with
      | rest p => exact ⟨_, _, rfl, rfl⟩
      | hole => cases hhole
      | _ => cases hpart

theorem lexemes_arrayPattern (elements : List Pattern) (span : Span) :
    lexemes (Layout.pattern (.array elements span)) = .mark .openBracket ::
      (lexemes (commasWithHoles Layout.pattern Render.Pattern.isHole elements) ++ [Lexeme.mark .closeBracket]) := by
  simp [Layout.pattern, Layout.list, commasWithHoles, Layout.patterns_eq]

theorem array_targetReadsBack {elements : List Pattern} (span : Span)
    (h : ∀ p ∈ elements, p.Legible true .assign .element ∧ PartReadsBack p) : TargetReadsBack (.array elements span) := by
  unfold TargetReadsBack
  rw [lexemes_arrayPattern]
  refine .of_primary rfl (plain_of_first rfl rfl) fun D hD => ?_
  simp only [List.length_cons, List.length_append, List.length_nil] at hD
  unfold primary
  refine .peek fun t kind _ _ => ?_
  simp only [show t.kind = .punct .openBracket from kind]
  refine .advance fun _ _ _ _ => .bound fun n hn => ?_
  rw [List.length_append] at hn
  have helements : Reads (separatedWithHoles .closeBracket .hole (item (grammar D)) n)
      (lexemes (commasWithHoles Layout.pattern Render.Pattern.isHole elements)) (·.isMark .closeBracket)
      (List.Forall₂ StandsForItem elements) := by
    refine separatedWithHoles_reads (by decide) (fun p hp hhole => ?_) (fun p hp hhole => ?_) (fun p hp hhole => ?_) n
      (by omega)
    · have hle := length_le_elements hp
      exact element_reads (h p hp).1 (h p hp).2 hhole (by omega)
    · obtain ⟨l, ls, hls, hl⟩ := element_starts (h p hp).1 hhole
      simp only [endsItem, Bool.and_eq_true, Bool.not_eq_true', Bool.or_eq_false_iff] at hl
      exact ⟨l, ls, hls, hl.1.2.2, hl.1.1.1⟩
    · cases p <;> first | exact ⟨rfl, .hole, rfl, rfl⟩ | cases hhole
  refine .bind helements rfl fun items hitems => .expectPunct fun _ => .pure ?_
  obtain ⟨ps', hconvert, hbare⟩ := itemsToPatterns_eq hitems
  exact ⟨.array ps' _, by show (itemsToPatterns items).map _ = _; rw [hconvert]; rfl,
    by rw [Pattern.bare, Pattern.bare, hbare], fun hsimple => Bool.noConfusion hsimple⟩

/-- The entry that stands for an entry of a pattern. -/
def StandsForProperty (p : PatternProp) (q : Property) : Prop :=
  ∃ p', propsToPatterns [q] = .ok [p'] ∧ barePatternProps [p'] = barePatternProps [p]

theorem propsToPatterns_cons {q : Property} {qs : List Property} {p : PatternProp} {ps : List PatternProp}
    (hq : propsToPatterns [q] = .ok [p]) (hqs : propsToPatterns qs = .ok ps) :
    propsToPatterns (q :: qs) = .ok (p :: ps) := by
  cases q with
  | spread e =>
      change (toPattern e >>= _) = _ at hq ⊢
      cases he : toPattern e with
      | error fault =>
          rw [he] at hq
          cases hq
      | ok p' =>
          rw [he] at hq
          cases hq
          rw [hqs]
          rfl
  | init k e shorthand span =>
      change (toElement e >>= _) = _ at hq ⊢
      cases he : toElement e with
      | error fault =>
          rw [he] at hq
          cases hq
      | ok p' =>
          rw [he] at hq
          cases hq
          rw [hqs]
          rfl

theorem barePatternProps_cons (p : PatternProp) (ps : List PatternProp) :
    barePatternProps (p :: ps) = barePatternProps [p] ++ barePatternProps ps := by
  cases p <;> rfl

theorem propsToPatterns_eq {ps : List PatternProp} {qs : List Property} (h : List.Forall₂ StandsForProperty ps qs) :
    ∃ ps', propsToPatterns qs = .ok ps' ∧ barePatternProps ps' = barePatternProps ps := by
  induction h with
  | nil => exact ⟨[], rfl, rfl⟩
  | @cons p q ps qs hp _ ih =>
      obtain ⟨p', hq, hbare⟩ := hp
      obtain ⟨ps', hqs, hbares⟩ := ih
      exact ⟨p' :: ps', propsToPatterns_cons hq hqs, by rw [barePatternProps_cons p', barePatternProps_cons p, hbare, hbares]⟩

/-- An entry of an object as a part of a target that is read back. -/
def EntryReadsBack : PatternProp → Prop
  | .init k p _ => KeyReadsBack k ∧ PartReadsBack p
  | .rest p => TargetReadsBack p

theorem isPart_of_legible {p : Pattern} {mode : Render.Mode} {place : Place} (h : p.Legible true mode place)
    (hplace : place.allowsRest = false) : isPart p = true := by
  cases p with
  | rest p => exact absurd h.1 (by simp [hplace])
  | hole => cases place <;> simp_all [Pattern.Legible, Place.allowsHole, Place.allowsRest]
  | _ => rfl

theorem entry_reads {p : PatternProp} (hlegible : LegiblePatternProps true .assign [p]) (h : EntryReadsBack p) {D : Nat}
    (hD : (lexemes (Layout.patternProp p)).length ≤ D) :
    Reads (property (grammar D)) (lexemes (Layout.patternProp p)) (endsItem .closeBrace) (StandsForProperty p) := by
  match p with
  | .init k p true =>
      obtain ⟨⟨id, span, rfl, hname, hp⟩, hident⟩ := hlegible.1 rfl
      obtain rfl : p = .ident ⟨id.name, span⟩ := by
        rcases hp with rfl | ⟨default, rfl⟩
        · rfl
        · cases hident rfl
      refine (property_reads_short hname).mono ?_
      rintro _ ⟨id', span', span'', hid, rfl⟩
      exact ⟨.init (.name id') (.ident ⟨id.name, span'⟩) true, rfl,
        by simp [Ident.bare, hid]⟩
  | .init k p false =>
      have hlay : lexemes (Layout.patternProp (.init k p false)) =
          lexemes (Layout.key k) ++ (Lexeme.mark .colon :: lexemes (Layout.pattern p)) := by
        simp [Layout.patternProp]
      rw [hlay] at hD ⊢
      have hvalue := part_assignable h.2 (isPart_of_legible hlegible.2.2.1 rfl)
      refine (property_reads_init hlegible.2.1 h.1 hvalue hD).mono ?_
      rintro _ ⟨k', e, span, hk', ⟨p', hconvert, hbare⟩, rfl⟩
      exact ⟨.init k' p' false, by show (toElement e >>= _) = _; rw [hconvert]; rfl, by simp [hk', hbare]⟩
  | .rest p =>
      refine (property_reads_spread (Operand.unary h).assignable (Nat.lt_of_succ_le hD)).mono ?_
      rintro _ ⟨e, ⟨p', hconvert, hbare, -⟩, rfl⟩
      exact ⟨.rest p', by show (toPattern e >>= _) = _; rw [hconvert]; rfl, by simp [hbare]⟩

/-- The first token of an entry of a pattern. -/
theorem entry_starts {mode : Render.Mode} {p : PatternProp} (hlegible : LegiblePatternProps true mode [p]) :
    Starts (fun k => !endsItem .closeBrace k) (Layout.patternProp p) := by
  match p with
  | .init k p true =>
      have hstarts := element_starts hlegible.2.2.1 (by
        obtain ⟨⟨id, span, rfl, hname, hp⟩, -⟩ := hlegible.1 rfl
        rcases hp with rfl | ⟨default, rfl⟩ <;> rfl)
      exact hstarts.mono fun k hk => (Bool.and_eq_true_iff.1 hk).2
  | .init k p false =>
      have hkey : Starts (fun k => !endsItem .closeBrace k) (Layout.key k) := (key_starts k hlegible.2.1).mono
        fun k hk => (Bool.and_eq_true_iff.1 hk).2
      exact (hkey.append _).append _
  | .rest p => exact ⟨_, _, rfl, rfl⟩

theorem lexemes_objectPattern (props : List PatternProp) (span : Span) :
    lexemes (Layout.pattern (.object props span)) = .mark .openBrace ::
      (lexemes (commas (props.map Layout.patternProp)) ++ [Lexeme.mark .closeBrace]) := by
  simp [Layout.pattern, Layout.patternProps_eq]

theorem object_targetReadsBack {props : List PatternProp} (span : Span)
    (h : ∀ p ∈ props, LegiblePatternProps true .assign [p] ∧ EntryReadsBack p) : TargetReadsBack (.object props span) := by
  unfold TargetReadsBack
  rw [lexemes_objectPattern]
  have hentries : ∀ D n, (lexemes (commas (props.map Layout.patternProp))).length ≤ D →
      (lexemes (commas (props.map Layout.patternProp))).length < n →
      Reads (separated .closeBrace (property (grammar D)) n) (lexemes (commas (props.map Layout.patternProp)))
        (·.isMark .closeBrace) (List.Forall₂ StandsForProperty props) := by
    intro D n hD hn
    refine separated_reads (by decide) (fun p hp => ?_) (fun p hp => ?_) n hn
    · exact entry_reads (h p hp).1 (h p hp).2 (Nat.le_trans (length_le_commas (List.mem_map_of_mem hp)) hD)
    · obtain ⟨l, ls, hls, hl⟩ := entry_starts (h p hp).1
      simp only [endsItem, Bool.not_eq_true', Bool.or_eq_false_iff] at hl
      exact ⟨l, ls, hls, hl.2⟩
  refine (braces_operand hentries).mono ?_
  rintro _ ⟨qs, span', hqs, rfl⟩
  obtain ⟨ps', hconvert, hbare⟩ := propsToPatterns_eq hqs
  exact ⟨.object ps' span', by show (propsToPatterns qs).map _ = _; rw [hconvert]; rfl,
    by rw [Pattern.bare, Pattern.bare, hbare], fun hsimple => Bool.noConfusion hsimple⟩

end FieldScript.Parse
