import FieldScript.Proofs.Schema.Lexemes

/-!
# Where the tokens of a schema stand

Between tokens stand blanks, commas and comments. A scan that has found a token has ended the comment in front of it, so
that what was skipped is skipped again in front of any other text (`Ignored`).

* `scanToken_lexes`: what the scan of a token passes.
* `Lexes.again`, `Lexes.glued`: the same token in front of another text.
-/

namespace FieldScript.Schema

open FieldScript.Text
open FieldScript.Token (Halts halts_nil halts_cons)

variable {c next : Cursor} {kind : TokenKind} {w blank rest : List Char} {x : Char} {o : Nat} {t : Token}

/-! ## Between tokens -/

/-- The characters that no token starts with because they are skipped. -/
def isIgnored (x : Char) : Bool :=
  x = '#' || (x = ' ' || x = '\t' || x = '\n' || x = '\r' || x = ',' || x = '\uFEFF')

/-- A text that is skipped in front of every other one. -/
def Ignored (blank : List Char) : Prop :=
  ∀ o rest, skipIgnored false o (blank ++ rest) = skipIgnored false (o + byteLength blank) rest

theorem skipIgnored_solid (h : isIgnored x = false) (cs : List Char) : skipIgnored false o (x :: cs) = ⟨x :: cs, o⟩ := by
  simp only [isIgnored, Bool.or_eq_false_iff, decide_eq_false_iff_not] at h
  simp [skipIgnored, h]

theorem skipIgnored_form (comment : Bool) (o : Nat) (cs : List Char) :
    ∃ blank, Moves ⟨cs, o⟩ blank (skipIgnored comment o cs) ∧ Halts isIgnored (skipIgnored comment o cs).rest ∧
      ((skipIgnored comment o cs).rest ≠ [] → ∀ o' rest,
        skipIgnored comment o' (blank ++ rest) = skipIgnored false (o' + byteLength blank) rest) := by
  induction cs generalizing comment o with
  | nil => cases comment <;> exact ⟨[], .refl _, halts_nil _, fun h => absurd rfl h⟩
  | cons x cs ih =>
      -- A character that is skipped leaves the same to do behind it.
      have hskip : ∀ comment', (∀ o' rest, skipIgnored comment o' (x :: rest) = skipIgnored comment' (o' + x.utf8Size) rest) →
          ∃ blank, Moves ⟨x :: cs, o⟩ blank (skipIgnored comment o (x :: cs)) ∧
            Halts isIgnored (skipIgnored comment o (x :: cs)).rest ∧
            ((skipIgnored comment o (x :: cs)).rest ≠ [] → ∀ o' rest,
              skipIgnored comment o' (blank ++ rest) = skipIgnored false (o' + byteLength blank) rest) := by
        intro comment' hstep
        obtain ⟨blank, hmoves, hhalts, hagain⟩ := ih comment' (o + x.utf8Size)
        rw [hstep]
        refine ⟨x :: blank, hmoves.cons, hhalts, fun hne o' rest => ?_⟩
        rw [List.cons_append, hstep, hagain hne, byteLength_cons, Nat.add_assoc]
      cases comment with
      | true =>
          by_cases hline : (x = '\n' || x = '\r') = true
          · refine hskip false fun o' rest => ?_
            have hsize : x.utf8Size = 1 := by
              simp only [Bool.or_eq_true, decide_eq_true_eq] at hline
              rcases hline with rfl | rfl <;> rfl
            rw [skipIgnored, if_pos hline, hsize]
          · exact hskip true fun o' rest => by rw [skipIgnored, if_neg hline]
      | false =>
          by_cases hcomment : x = '#'
          · refine hskip true fun o' rest => ?_
            subst hcomment
            rfl
          by_cases hblank : (x = ' ' || x = '\t' || x = '\n' || x = '\r' || x = ',' || x = '\uFEFF') = true
          · exact hskip false fun o' rest => by rw [skipIgnored, if_neg hcomment, if_pos hblank]
          · have hsolid : isIgnored x = false := by simp [isIgnored, hcomment, hblank]
            rw [skipIgnored_solid hsolid]
            exact ⟨[], .refl _, halts_cons.2 hsolid, fun _ _ _ => rfl⟩

/-- What is left does not depend on the offset. -/
theorem skipIgnored_offset (comment : Bool) (o o' : Nat) (cs : List Char) :
    (skipIgnored comment o cs).rest = (skipIgnored comment o' cs).rest := by
  induction cs generalizing comment o o' with
  | nil => cases comment <;> rfl
  | cons x cs ih =>
      cases comment with
      | true =>
          unfold skipIgnored
          split <;> exact ih _ _ _
      | false =>
          unfold skipIgnored
          split
          · exact ih _ _ _
          · split
            · exact ih _ _ _
            · rfl

/-! ## Tokens -/

/-- A token behind a cursor: what is skipped in front of it, its text, and the cursor behind it. -/
structure Lexes (c : Cursor) (blank w : List Char) (t : Token) (next : Cursor) : Prop where
  ignored : Ignored blank
  spells : Spells w t.kind
  solid : Halts isIgnored w
  rest : c.rest = blank ++ (w ++ next.rest)
  span : t.span = ⟨c.offset + byteLength blank, c.offset + byteLength blank + byteLength w⟩
  offset : next.offset = c.offset + byteLength blank + byteLength w
  apart : Halts t.kind.runsInto next.rest

theorem scanToken_eq {first : Cursor} (h : skipIgnored false c.offset c.rest = first) :
    scanToken c = (scanKind first).map fun (kind, next) => (⟨kind, ⟨first.offset, next.offset⟩⟩, next) := by
  rw [← h]
  rfl

/-- A scan that succeeds has skipped something and found a kind of token. -/
theorem exists_of_scanToken (h : scanToken c = .ok (t, next)) :
    ∃ first, skipIgnored false c.offset c.rest = first ∧ scanKind first = .ok (t.kind, next) ∧
      t.span = ⟨first.offset, next.offset⟩ := by
  refine ⟨_, rfl, ?_⟩
  rw [scanToken_eq rfl] at h
  cases hkind : scanKind (skipIgnored false c.offset c.rest) with
  | error fault =>
      rw [hkind] at h
      cases h
  | ok found =>
      rw [hkind] at h
      cases h
      exact ⟨rfl, rfl⟩

theorem scanToken_lexes (h : scanToken c = .ok (t, next)) (hend : t.kind ≠ .eof) : ∃ blank w, Lexes c blank w t next := by
  obtain ⟨first, hfirst, hkind, hspan⟩ := exists_of_scanToken h
  obtain ⟨blank, hblank, hsolid, hagain⟩ := skipIgnored_form false c.offset c.rest
  rw [hfirst] at hblank hsolid hagain
  have hne : first.rest ≠ [] := by
    obtain ⟨cs, o⟩ := first
    rintro rfl
    rw [scanKind_nil] at hkind
    exact hend (congrArg Prod.fst (Except.ok.inj hkind)).symm
  obtain ⟨w, hw, hspells, hapart⟩ := scanKind_spells hkind hne
  have hstart : first.offset = c.offset + byteLength blank := hblank.offset
  have hstop : next.offset = c.offset + byteLength blank + byteLength w := by rw [hw.offset, hstart]
  refine ⟨blank, w, hagain hne, hspells, ?_, ?_, ?_, hstop, hapart⟩
  · intro x hx
    obtain ⟨ws, rfl⟩ := List.head?_eq_some_iff.1 hx
    refine hsolid x ?_
    rw [hw.rest]
    rfl
  · rw [← hw.rest]
    exact hblank.rest
  · rw [hspan, hstart, hstop]

/-- A scan that finds no more token skips all that is left. -/
theorem scanToken_end (h : scanToken c = .ok (t, next)) (hend : t.kind = .eof) (o : Nat) :
    (skipIgnored false o c.rest).rest = [] := by
  obtain ⟨first, hfirst, hkind, -⟩ := exists_of_scanToken h
  rw [skipIgnored_offset false o c.offset, hfirst]
  by_cases hne : first.rest = []
  · exact hne
  · obtain ⟨w, -, hspells, -⟩ := scanKind_spells hkind hne
    exact absurd hend hspells.ne_eof

/-- The end of a text behind something that is skipped. -/
theorem scanToken_nil (h : (skipIgnored false c.offset c.rest).rest = []) :
    ∃ t next, scanToken c = .ok (t, next) ∧ t.kind = .eof := by
  cases hfirst : skipIgnored false c.offset c.rest with
  | mk cs o =>
      rw [hfirst] at h
      cases h
      exact ⟨_, _, scanToken_eq hfirst, rfl⟩

/-- What is skipped in front of a token does not matter. -/
theorem scanToken_ignored (h : Ignored blank) (o : Nat) (rest : List Char) :
    scanToken ⟨blank ++ rest, o⟩ = scanToken ⟨rest, o + byteLength blank⟩ := by
  rw [scanToken_eq (h o rest), scanToken_eq rfl]

namespace Lexes

theorem skip (h : Lexes c blank w t next) (o : Nat) (rest : List Char) :
    skipIgnored false o (blank ++ (w ++ rest)) = ⟨w ++ rest, o + byteLength blank⟩ := by
  obtain ⟨x, ws, rfl⟩ := List.exists_cons_of_ne_nil h.spells.ne_nil
  rw [h.ignored]
  exact skipIgnored_solid (halts_cons.1 h.solid) _

/-- The same token in front of a text that it does not run into. -/
theorem again (h : Lexes c blank w t next) (o : Nat) (hrest : Halts t.kind.runsInto rest) :
    scanToken ⟨blank ++ (w ++ rest), o⟩ =
      .ok (⟨t.kind, ⟨o + byteLength blank, o + byteLength blank + byteLength w⟩⟩,
        ⟨rest, o + byteLength blank + byteLength w⟩) := by
  rw [scanToken_eq (h.skip o rest), h.spells.scans _ rest hrest]
  rfl

/-- In front of a text that it runs into, the token is another one. -/
theorem glued {t' : Token} {next' : Cursor} (h : Lexes c blank w t next) (hx : rest.head? = some x)
    (hruns : t.kind.runsInto x = true) (hscan : scanToken ⟨blank ++ (w ++ rest), o⟩ = .ok (t', next')) :
    t'.kind ≠ t.kind := by
  obtain ⟨first, hfirst, hkind, -⟩ := exists_of_scanToken hscan
  rw [h.skip o rest] at hfirst
  subst hfirst
  intro heq
  rw [heq] at hkind
  exact h.spells.glued hx hruns hkind

theorem length_lt (h : Lexes c blank w t next) : next.rest.length < c.rest.length := by
  have hpos := List.length_pos_iff.2 h.spells.ne_nil
  rw [h.rest, List.length_append, List.length_append]
  omega

end Lexes

end FieldScript.Schema
