import FieldScript.Proofs.Module.Failures
import FieldScript.Proofs.Render.AwaitMark

/-!
# Asynchronous units

Whether a unit counts as asynchronous is read off its text, and whether it waits is a matter of its block. A unit that
waits counts as asynchronous, and so does one in which an author spells the mark. A unit that counts as asynchronous
waits, unless an author spells the mark up to the blank behind it (`compile_isAsync`): in a literal, in the text of a
template, or as a name that ends with it.
-/

namespace FieldScript

open CompiledUnit (asyncMark)

theorem Text.indexOf?_isSome (needle : List Char) (cs : List Char) :
    (Text.indexOf? needle cs).isSome = true ↔ needle <:+: cs := by
  induction cs with
  | nil => cases needle <;> simp [Text.indexOf?]
  | cons c rest ih =>
      unfold Text.indexOf?
      rw [List.infix_cons_iff, ← List.isPrefixOf_iff_prefix, ← ih]
      split <;> simp_all

/-- Whether a block waits somewhere, in a function of its own or not. -/
def Block.Waits (b : Block) : Prop := ∃ n ∈ Node.ofBlock b, n.isAwait = true

/-- The names, literals and texts of templates of a block. -/
def Block.spellings (b : Block) : List String := (Node.ofBlock b).flatMap Node.spellings

theorem wait_mem_signs {ns : List Node} : Sign.wait ∈ signs ns ↔ ∃ n ∈ ns, n.isAwait = true := by
  simp [signs, Node.signs]

theorem spelling_mem_signs {ns : List Node} {s : String} : .spelling s ∈ signs ns ↔ s ∈ ns.flatMap Node.spellings := by
  simp [signs, Node.signs]

/-- The mark is in the layout of a block if the block waits or an author spells it, and only if the block waits or an
author spells the mark up to the blank. -/
theorem chars_block_asyncMark (out : Render.Outside) (l : Locals) {b : Block} (h : b.Legible true) :
    (b.Waits ∨ (∃ s ∈ b.spellings, asyncMark <:+: s.toList) →
      asyncMark <:+: Token.Piece.chars (Layout.block (Spelled.block out l b))) ∧
    (asyncMark <:+: Token.Piece.chars (Layout.block (Spelled.block out l b)) →
      b.Waits ∨ ∃ s ∈ b.spellings, asyncMark <:+: s.toList ++ [' ']) := by
  have htells := Tells.block out l b h
  constructor
  · rintro (hwaits | ⟨s, hs, hmark⟩)
    · exact htells.shown .wait (wait_mem_signs.2 hwaits)
    · exact hmark.trans (htells.shown (.spelling s) (spelling_mem_signs.2 hs))
  · intro hmark
    obtain ⟨lexeme, hlexeme, hfound⟩ := Token.Piece.exists_of_asyncMark htells.parted hmark
    obtain ⟨sign, hsign, hfound⟩ := htells.known lexeme hlexeme hfound
    cases sign with
    | wait => exact .inl (wait_mem_signs.1 hsign)
    | spelling s => exact .inr ⟨s, spelling_mem_signs.1 hsign, hfound⟩

/-- The boundary does not have the mark, nor does it make one together with the braces inside of it. -/
theorem errorBoundary_asyncMark (b : Block) :
    asyncMark <:+: (errorBoundary (Layout.text (Layout.block b))).toList ↔
      asyncMark <:+: Token.Piece.chars (Layout.block b) := by
  obtain ⟨inner, hinner⟩ : ∃ inner, Token.Piece.chars (Layout.block b) = '{' :: (inner ++ ['}']) := by
    obtain ⟨stmts, span⟩ := b
    refine ⟨' ' :: (Token.Piece.chars (Layout.spaced (Layout.statements stmts)) ++ [' ']), ?_⟩
    have hopen : (Token.Lexeme.mark .openBrace).chars = ['{'] := rfl
    have hclose : (Token.Lexeme.mark .closeBrace).chars = ['}'] := rfl
    simp [Layout.block, Layout.braces, Layout.mark, Layout.blank, Token.Piece.chars, hopen, hclose]
  obtain ⟨after, htext, hafter⟩ : ∃ after, (errorBoundary (Layout.text (Layout.block b))).toList =
      "try ".toList ++ '{' :: (inner ++ '}' :: after) ∧ ¬ asyncMark <:+: after := by
    refine ⟨" catch (err) \x7b throw new Error(JSON.stringify(err, Object.getOwnPropertyNames(err))); \x7d".toList, ?_,
      by decide +kernel⟩
    simp [errorBoundary, Layout.text, String.toList_append, hinner]
  rw [htext, hinner]
  constructor
  · intro h
    -- The braces divide the text, and the parts outside of them are known.
    have hrest := (asyncMark_infix_of_notMem (by decide) h).resolve_left (by decide +kernel)
    have hblock := (asyncMark_infix_of_notMem (by decide) hrest).resolve_right hafter
    exact hblock.trans ⟨['{'], ['}'], rfl⟩
  · intro h
    exact h.trans ⟨"try ".toList, after, by simp⟩

/-- A unit with the common boundary, or without one, counts as asynchronous if its block waits, or if an author spells
the mark in it. It counts as asynchronous only if its block waits, or if an author spells the mark up to the blank. -/
theorem compile_isAsync {name source : String} {capabilities : Capabilities} {options : CompileOptions} {m : CompiledModule}
    (hcompile : compile name source capabilities options = .ok m)
    (hwrap : options.wrap = errorBoundary ∨ options.wrap = id) (hregenerate : options.regenerate = none) :
    ∀ u ∈ m.units,
      (u.block.Waits ∨ (∃ s ∈ u.block.spellings, asyncMark <:+: s.toList) → u.isAsync = true) ∧
      (u.isAsync = true → u.block.Waits ∨ ∃ s ∈ u.block.spellings, asyncMark <:+: s.toList ++ [' ']) := by
  intro u hu
  obtain ⟨hlegible, htext⟩ := renders_of_compile hcompile u hu
  have hflag : u.isAsync = true ↔
      asyncMark <:+: Token.Piece.chars (Layout.block (Spelled.block ⟨capabilities, u.args⟩ Locals.empty.push u.block)) := by
    unfold CompiledUnit.isAsync
    rw [Text.indexOf?_isSome, htext, hregenerate]
    rcases hwrap with hwrap | hwrap
    · rw [hwrap]
      exact errorBoundary_asyncMark _
    · rw [hwrap]
      simp [Layout.text]
  rw [hflag]
  exact chars_block_asyncMark _ _ hlegible

instance (b : Block) : Decidable b.Waits := inferInstanceAs (Decidable (∃ n ∈ Node.ofBlock b, n.isAwait = true))

/-- Whether a source compiles to a unit that passes a test. -/
def compilesTo (source : String) (capabilities : Capabilities) (test : CompiledUnit → Bool) : Bool :=
  match compile "test" source capabilities .default with
  | .ok m => m.units.any test
  | .error _ => false

theorem exists_of_compilesTo {source : String} {capabilities : Capabilities} {test : CompiledUnit → Bool}
    (h : compilesTo source capabilities test = true) :
    ∃ m u, compile "test" source capabilities .default = .ok m ∧ u ∈ m.units ∧ test u = true := by
  unfold compilesTo at h
  split at h
  · rename_i m hm
    obtain ⟨u, hu, htest⟩ := List.any_eq_true.1 h
    exact ⟨m, u, hm, hu, htest⟩
  · cases h

/-- A unit that asks for something waits and counts as asynchronous. -/
theorem askingUnit_isAsync :
    ∃ m u, compile "test" "type Query \x7b a: String \x7b get('x') \x7d \x7d" getOnly .default = .ok m ∧ u ∈ m.units ∧
      u.block.Waits ∧ u.isAsync = true := by
  obtain ⟨m, u, hcompile, hu, hwaits⟩ := exists_of_compilesTo
    (show compilesTo "type Query \x7b a: String \x7b get('x') \x7d \x7d" getOnly (fun u => decide u.block.Waits) = true by
      decide +kernel)
  have hwaits := of_decide_eq_true hwaits
  exact ⟨m, u, hcompile, hu, hwaits, (compile_isAsync hcompile (.inl rfl) rfl u hu).1 (.inl hwaits)⟩

/-- A unit that returns a text with the mark counts as asynchronous although it never waits. -/
theorem quotedMark_isAsync :
    ∃ m u, compile "test" "type Query \x7b a: String \x7b 'await x' \x7d \x7d" ⟨[]⟩ .default = .ok m ∧ u ∈ m.units ∧
      u.isAsync = true ∧ ¬ u.block.Waits := by
  obtain ⟨m, u, hcompile, hu, htest⟩ := exists_of_compilesTo
    (show compilesTo "type Query \x7b a: String \x7b 'await x' \x7d \x7d" ⟨[]⟩
      (fun u => u.isAsync && !decide u.block.Waits) = true by decide +kernel)
  simp only [Bool.and_eq_true, Bool.not_eq_true', decide_eq_false_iff_not] at htest
  exact ⟨m, u, hcompile, hu, htest.1, htest.2⟩

end FieldScript
