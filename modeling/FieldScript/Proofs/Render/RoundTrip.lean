import FieldScript.Generate
import FieldScript.Proofs.Parse.ReadBack
import FieldScript.Proofs.Render.Laid
import FieldScript.Proofs.Render.Spelled
import FieldScript.Proofs.Render.Written
import FieldScript.Proofs.Settle.LegibleBodies

/-!
# Generated texts are read back

The text of a generated body, as the body of an asynchronous function, is read as the block that it was made from, with
the names spelled out (`generate_readBack_iff`). There is one exception: where a number of digits alone stands in front
of a point and a name, the number takes the point. Then the text has fewer points than the block has accesses with a
point, and is not read as the block.
-/

namespace FieldScript

open Token (Lexeme Piece Spells Stream Lays)
open Token.Piece (chars lexemes)

/-! ## The text of a function with a block -/

namespace Layout

/-- An asynchronous function without parameters. -/
def function (b : Block) : List Piece :=
  word "async" ++ (blank ++ (parens (commas []) ++ (blank ++ (mark .arrow ++ (blank ++ block b)))))

theorem chars_function (b : Block) : chars (function b) = ("async () => " ++ text (block b)).toList := by
  simp [function, text, word, blank, parens, mark, commas, chars, String.toList_append, Lexeme.word, Lexeme.mark, Punct.text]

theorem lexemes_function (b : Block) : lexemes (function b) = Parse.arrowLexemes [] (.block b) true := by
  simp [function, Parse.arrowLexemes, arrowBody]

theorem function_lays {b : Block} (h : b.Legible true) (d : Token.Depths) (cs : List Char) :
    Lays d (function b) cs d (fused (Node.ofBlock b)) := by
  have hbody : Lays d (mark .arrow ++ (blank ++ block b)) cs d (fused (Node.ofBlock b)) :=
    lays_mark (by decide) (block_lays b h d cs)
  have hparams : Lies (commas []) 0 := LieAll.nil.commas
  refine lays_keyword (Token.isWord_keyword .asyncWord) ?_
  exact lays_cast (lays_append hparams.parens (lays_blank hbody)) (Nat.zero_add _)

theorem function_nested {b : Block} (h : b.Legible true) :
    Nested (lexemes (function b)) (dotted (Node.ofBlock b)) := by
  have hrest := infix_nested (l := .mark .arrow) rfl (parens_nested (commas_nested .nil)) (block_nested b h)
  exact (front_nested (word_nested "async") (blank_nested hrest)).cast (Nat.zero_add _)

end Layout

/-- A source whose tokens are read as an assignment, as one expression. -/
theorem expr_of_reads {source : Source} {ls : List Lexeme} {Q : Expr → Prop} {t : Token} (heof : t.kind = .eof)
    (hspells : Spells (.ofSource source 0) ls (.done t))
    (hreads : Parse.Reads (Parse.assignment (Parse.grammar ((Stream.ofSource source 0).length + 1))) ls
      Token.Kind.stopsAssignment Q) : ∃ e, source.expr = .ok e ∧ Q e := by
  have hstops : Parse.Stops Token.Kind.stopsExpression (.done t) := ⟨t, rfl, by rw [heof]; rfl⟩
  obtain ⟨e, stop, hrun, he⟩ := Parse.sequence_reads hreads (.ofSource source 0) (.done t) 0 hspells hstops
  refine ⟨e, ?_, he⟩
  have hrun' : Parse.run (.ofSource source 0) 0 = .ok (e, ⟨.done t, stop⟩) := hrun
  have hend : t.isEof = true := by
    unfold Token.isEof
    rw [heof]
  unfold Source.expr
  rw [hrun']
  show Except.mapError _ (if t.isEof = true then Except.ok e else _) = .ok e
  rw [if_pos hend]
  rfl

/-! ## Reading the text -/

/-- No access has a point behind a number of digits alone. -/
def Block.HasNoFused (b : Block) : Prop := ∀ n ∈ Node.ofBlock b, n.isFused = false

instance (b : Block) : Decidable b.HasNoFused := inferInstanceAs (Decidable (∀ n ∈ Node.ofBlock b, n.isFused = false))

theorem hasNoFused_iff {b : Block} : b.HasNoFused ↔ fused (Node.ofBlock b) = 0 := by
  simp [Block.HasNoFused, fused, List.countP_eq_zero]

/-- The source with the text of a block as the body of an asynchronous function. -/
def functionSource (b : Block) : Source := .ofString ("async () => " ++ Layout.text (Layout.block b))

theorem ofSource_function (b : Block) : Stream.ofSource (functionSource b) 0 =
    Stream.scan ((chars (Layout.function b) ++ []).length + 1) [] ⟨chars (Layout.function b) ++ [], 0⟩ := by
  rw [Stream.ofSource_zero, List.append_nil, Layout.chars_function]
  rfl

/-- What is a function with a block up to places is such a function. -/
theorem exists_of_bare_arrow {e : Expr} {b : Block} {isAsync : Bool} {span : Span}
    (h : e.bare = (Expr.arrow [] (.block b) isAsync span).bare) :
    ∃ b' span', e = .arrow [] (.block b') isAsync span' ∧ b'.bare = b.bare := by
  cases e with
  | arrow ps body isAsync' span' =>
      simp only [Expr.bare, Expr.arrow.injEq, barePatterns] at h
      obtain ⟨hps, hbody, rfl, -⟩ := h
      obtain rfl : ps = [] := by
        cases ps with
        | nil => rfl
        | cons p ps => cases hps
      cases body with
      | expr e => cases hbody
      | block b' => exact ⟨b', span', rfl, ArrowBody.block.inj hbody⟩
  | _ => simp at h

/-- Where no digits stand in front of a point, the function is read back. -/
theorem functionSource_expr {b : Block} (h : b.Legible true) (hfused : b.HasNoFused) :
    ∃ b' span, (functionSource b).expr = .ok (.arrow [] (.block b') true span) ∧ b'.bare = b.bare := by
  obtain ⟨fuel, o, hfuel, hspells⟩ :=
    (Layout.function_lays h [] []).spells (hasNoFused_iff.1 hfused) (Nat.lt_succ_self _) 0
  obtain ⟨fuel, rfl⟩ : ∃ k, fuel = k + 1 := ⟨fuel - 1, by omega⟩
  rw [← ofSource_function, Layout.lexemes_function] at hspells
  have hlength := hspells.length_eq
  have hbody : Parse.BodyReadsBack (.block b) := Parse.block_readsBack b h
  have hparams : ∀ p ∈ ([] : List Pattern), p.Legible true .bind .param ∧ Parse.BindingReadsBack p := List.forall_mem_nil _
  have hnested : Nested (lexemes (Layout.commas (([] : List Pattern).map Layout.pattern))) 0 := .nil
  have hassignment := Parse.assignment_arrow (fun s rest hs => Parse.arrowAhead_true hnested hs)
    (Parse.arrow_reads true Span.nowhere hparams hbody (D := (Stream.ofSource (functionSource b) 0).length + 1) (by omega))
  obtain ⟨e, hread, he⟩ := expr_of_reads rfl hspells hassignment
  obtain ⟨b', span, rfl, hbare⟩ := exists_of_bare_arrow he
  exact ⟨b', span, hread, hbare⟩

/-- A function whose block is read back has no digits in front of a point. -/
theorem hasNoFused_of_expr {b b' : Block} (h : b.Legible true) {ps : List Pattern} {isAsync : Bool} {span : Span}
    (hread : (functionSource b).expr = .ok (.arrow ps (.block b') isAsync span)) (hbare : b'.bare = b.bare) :
    b.HasNoFused := by
  obtain ⟨hfinished, -, hdots⟩ := Parse.expr_sound hread
  rw [ofSource_function] at hfinished hdots
  obtain ⟨fuel, o, hfuel, -, hcount⟩ := (Layout.function_lays h [] []).dots_eq (Nat.lt_succ_self _) hfinished
  obtain ⟨fuel, rfl⟩ : ∃ k, fuel = k + 1 := ⟨fuel - 1, by omega⟩
  have hend : (Stream.scan (fuel + 1) [] ⟨[], o⟩).dots = 0 := rfl
  have hsame : dotted (Node.ofBlock b') = dotted (Node.ofBlock b) := by
    rw [← dotted_block_bare b', hbare, dotted_block_bare]
  rw [← hdots, (Layout.function_nested h).dotsOf_eq, hend] at hcount
  simp only [Node.ofExpr, Node.ofArrowBody, dotted_cons, dotted_append, hsame] at hcount
  exact hasNoFused_iff.2 (by omega)

/-! ## Generated bodies -/

/-- The block that the text of a generated body is read as, if it is read as a function with a block. -/
def Generated.readBack (g : Generated) : Option Block :=
  match (Source.ofString ("async () => " ++ g.text)).expr with
  | .ok (.arrow _ (.block b) _ _) => some b
  | _ => none

/-- The block of a generated body with the names spelled out, which is what its text shows. -/
def Generated.spelled (g : Generated) (capabilities : Capabilities) (args : List String) : Block :=
  Spelled.block ⟨capabilities, args⟩ Locals.empty.push g.block

/-- A body that was read and passes validation is generated as a block that can be written down, and its text is the
layout of this block with the names spelled out. -/
theorem generate_legible {source : Source} {offset : Nat} {parsed : Parsed} {known : Capabilities} {names : List String}
    {debug : Bool} (hread : source.exprAt offset = .ok parsed) (hvalid : parsed.expr.validate known names debug = .ok ())
    (capabilities : Capabilities) (args : List String) :
    ∃ g, generate parsed.expr capabilities args = .ok g ∧ g.block.Legible true ∧
      g.text = Layout.text (Layout.block (g.spelled capabilities args)) := by
  obtain ⟨b, hsettle, hlegible⟩ := settled_legible (Parse.exprAt_legible hread) (Expr.nodes_admissible hvalid) capabilities args
  refine ⟨⟨b, Layout.text (Layout.block (Spelled.block ⟨capabilities, args⟩ Locals.empty.push b))⟩, ?_, hlegible, rfl⟩
  have hwrites : Writes (Render.block b) ⟨capabilities, args⟩ Locals.empty.push _ Locals.empty.push :=
    Written.block _ Locals.empty.push b hlegible
  have htext : b.text capabilities args =
      .ok (Layout.text (Layout.block (Spelled.block ⟨capabilities, args⟩ Locals.empty.push b))) := by
    unfold Block.text Render.run
    show (·.1) <$> Render.block b ⟨capabilities, args⟩ Locals.empty.push = _
    rw [hwrites]
    rfl
  unfold generate
  rw [hsettle]
  show (b.text capabilities args >>= _) = _
  rw [htext]
  rfl

theorem generate_eq {source : Source} {offset : Nat} {parsed : Parsed} {known : Capabilities} {names : List String}
    {debug : Bool} (hread : source.exprAt offset = .ok parsed) (hvalid : parsed.expr.validate known names debug = .ok ())
    (capabilities : Capabilities) (args : List String) :
    ∃ g, generate parsed.expr capabilities args = .ok g ∧ (g.spelled capabilities args).Legible true ∧
      g.text = Layout.text (Layout.block (g.spelled capabilities args)) := by
  obtain ⟨g, hgenerate, hlegible, htext⟩ := generate_legible hread hvalid capabilities args
  exact ⟨g, hgenerate, Spelled.block_legible _ true _ g.block hlegible, htext⟩

/-- The text of a generated body is read back as its spelled block if and only if no access of the block has a point
behind a number of digits alone. -/
theorem generate_readBack_iff {source : Source} {offset : Nat} {parsed : Parsed} {known : Capabilities} {names : List String}
    {debug : Bool} (hread : source.exprAt offset = .ok parsed) (hvalid : parsed.expr.validate known names debug = .ok ())
    (capabilities : Capabilities) (args : List String) :
    ∃ g, generate parsed.expr capabilities args = .ok g ∧
      (g.readBack.map Block.bare = some (g.spelled capabilities args).bare ↔ (g.spelled capabilities args).HasNoFused) := by
  obtain ⟨g, hgenerate, hlegible, htext⟩ := generate_eq hread hvalid capabilities args
  refine ⟨g, hgenerate, fun hback => ?_, fun hfused => ?_⟩
  · unfold Generated.readBack at hback
    rw [htext] at hback
    split at hback
    · rename_i ps b isAsync span hexpr
      exact hasNoFused_of_expr hlegible hexpr (Option.some.inj hback)
    · cases hback
  · obtain ⟨b, span, hexpr, hbare⟩ := functionSource_expr hlegible hfused
    have hexpr' : (Source.ofString ("async () => " ++ g.text)).expr = .ok (.arrow [] (.block b) true span) := by
      rw [htext]
      exact hexpr
    unfold Generated.readBack
    rw [hexpr']
    exact congrArg some hbare

/-- A single capability. -/
def getOnly : Capabilities := ⟨[("get", true)]⟩

/-- Whether a text is a body that passes validation and becomes a block as told. -/
def generatedAny (text : String) (check : Block → Bool) : Bool :=
  ((Source.ofString text).exprAt 0).toOption.any fun parsed =>
    (parsed.expr.validate getOnly [] false).toOption.isSome &&
      (generate parsed.expr getOnly []).toOption.any fun g => check (g.spelled getOnly [])

theorem exists_of_generatedAny {text : String} {check : Block → Bool} (h : generatedAny text check = true) :
    ∃ parsed g, (Source.ofString text).exprAt 0 = .ok parsed ∧ parsed.expr.validate getOnly [] false = .ok () ∧
      generate parsed.expr getOnly [] = .ok g ∧ check (g.spelled getOnly []) = true := by
  unfold generatedAny at h
  cases hread : (Source.ofString text).exprAt 0 with
  | error fault => simp [hread, Except.toOption] at h
  | ok parsed =>
      cases hvalid : parsed.expr.validate getOnly [] false with
      | error violation => simp [hread, hvalid, Except.toOption] at h
      | ok _ =>
          cases hgenerate : generate parsed.expr getOnly [] with
          | error fault => simp [hread, hvalid, hgenerate, Except.toOption] at h
          | ok g => exact ⟨parsed, g, rfl, hvalid, hgenerate, by simpa [hread, hvalid, hgenerate, Except.toOption] using h⟩

/-- A number with a point of its own is read back, and one of digits alone in front of a point is not. -/
theorem generate_readBack_numbers :
    (∃ parsed g, (Source.ofString "get((1.5).e5)").exprAt 0 = .ok parsed ∧
      parsed.expr.validate getOnly [] false = .ok () ∧ generate parsed.expr getOnly [] = .ok g ∧
        g.readBack.map Block.bare = some (g.spelled getOnly []).bare) ∧
    ∃ parsed g, (Source.ofString "get((1).e5)").exprAt 0 = .ok parsed ∧
      parsed.expr.validate getOnly [] false = .ok () ∧ generate parsed.expr getOnly [] = .ok g ∧
        g.readBack.map Block.bare ≠ some (g.spelled getOnly []).bare := by
  constructor
  · obtain ⟨parsed, g, hread, hvalid, hgenerate, hcheck⟩ :=
      exists_of_generatedAny (show generatedAny "get((1.5).e5)" (fun b => decide b.HasNoFused) = true by decide +kernel)
    obtain ⟨g', hgenerate', hiff⟩ := generate_readBack_iff hread hvalid getOnly []
    cases hgenerate.symm.trans hgenerate'
    exact ⟨parsed, g, hread, hvalid, hgenerate, hiff.2 (of_decide_eq_true hcheck)⟩
  · obtain ⟨parsed, g, hread, hvalid, hgenerate, hcheck⟩ :=
      exists_of_generatedAny (show generatedAny "get((1).e5)" (fun b => !decide b.HasNoFused) = true by decide +kernel)
    obtain ⟨g', hgenerate', hiff⟩ := generate_readBack_iff hread hvalid getOnly []
    cases hgenerate.symm.trans hgenerate'
    refine ⟨parsed, g, hread, hvalid, hgenerate, fun hback => ?_⟩
    simp [hiff.1 hback] at hcheck

end FieldScript
