import FieldScript.Proofs.Token.Fence
import Mathlib.Data.List.Infix

/-!
# Tokens tile their source

From an offset on, the text of a source is a row of gaps and tokens, up to its end or to a fault. A gap is made of
blanks and of comments that are complete.

* `skipTrivia_gap`: what is skipped in front of a token is a gap, and the flag tells whether a line ends in it.
* `scanToken_tile`: one call passes a gap and a token.
* `scan_tiles`: all calls together.
* `ofSource_tiles`: how many calls there are, and where the tokens stand.
-/

namespace FieldScript.Token

open Text

/-! ## Gaps -/

/-- A piece of what stands between tokens. The line feed behind a comment belongs to it. -/
inductive Filler where
  | blank (c : Char)
  | lineComment (body : List Char)
  | blockComment (body : List Char)

namespace Filler

/-- The characters of a piece. -/
def text : Filler → List Char
  | .blank c => [c]
  | .lineComment body => ['/', '/'] ++ body ++ ['\n']
  | .blockComment body => ['/', '*'] ++ body ++ ['*', '/']

/-- Blanks are blank, and comments end where they can end for the first time. -/
def Whole : Filler → Prop
  | .blank c => isBlank c = true
  | .lineComment body => '\n' ∉ body
  | .blockComment body => ¬ ['*', '/'] <:+: body

/-- Whether a line ends in a piece. -/
def endsLine : Filler → Bool
  | .blank c => c = '\n' || c = '\u2028' || c = '\u2029'
  | .lineComment _ => true
  | .blockComment body => '\n' ∈ body

theorem endsLine_iff (f : Filler) :
    f.endsLine = true ↔ '\n' ∈ f.text ∨ .blank '\u2028' = f ∨ .blank '\u2029' = f := by
  cases f with
  | blank c =>
      simp only [endsLine, text, Bool.or_eq_true, decide_eq_true_eq, List.mem_singleton, Filler.blank.injEq, or_assoc,
        @eq_comm Char c]
  | lineComment body => simp [endsLine, text]
  | blockComment body => simp [endsLine, text]

end Filler

/-- Blanks and comments, and whether a line ends in them: with a line feed, or with one of the other two characters
outside of comments. At the end of a text, the last comment may do without its line feed. -/
def Gap (gap : List Char) (newline : Bool) (atEnd : Prop) : Prop :=
  ∃ (fillers : List Filler) (last : List Char), gap = fillers.flatMap Filler.text ++ last ∧ (∀ f ∈ fillers, f.Whole) ∧
    (last = [] ∨ atEnd ∧ ∃ body, last = ['/', '/'] ++ body ∧ '\n' ∉ body) ∧
    (newline = true ↔ '\n' ∈ gap ∨ .blank '\u2028' ∈ fillers ∨ .blank '\u2029' ∈ fillers)

namespace Gap

variable {gap body : List Char} {newline : Bool} {atEnd : Prop}

theorem nil : Gap [] false atEnd := ⟨[], [], rfl, nofun, .inl rfl, by simp⟩

/-- A comment that goes on up to the end of the text. -/
theorem last (h : atEnd) (hbody : '\n' ∉ body) : Gap (['/', '/'] ++ body) false atEnd :=
  ⟨[], ['/', '/'] ++ body, rfl, nofun, .inr ⟨h, body, rfl, hbody⟩, by simpa using hbody⟩

theorem cons {f : Filler} (hf : f.Whole) (h : Gap gap newline atEnd) :
    Gap (f.text ++ gap) (f.endsLine || newline) atEnd := by
  obtain ⟨fillers, last, rfl, hwhole, hlast, hnewline⟩ := h
  refine ⟨f :: fillers, last, by rw [List.flatMap_cons, List.append_assoc], ?_, hlast, ?_⟩
  · rintro f' (_ | ⟨_, hf'⟩)
    · exact hf
    · exact hwhole f' hf'
  · rw [Bool.or_eq_true, f.endsLine_iff, hnewline, List.mem_append (s := f.text), List.mem_cons, List.mem_cons]
    grind

end Gap

/-- A gap from the middle of what the text at hand is part of. -/
def GapFrom : Trivia → List Char → Bool → Prop → Prop
  | .code, gap, newline, atEnd => Gap gap newline atEnd
  | .lineComment, gap, newline, atEnd =>
    ∃ body, '\n' ∉ body ∧ (atEnd ∧ gap = body ∧ newline = false ∨
      ∃ gap' newline', gap = body ++ '\n' :: gap' ∧ newline = true ∧ Gap gap' newline' atEnd)
  | .blockComment _, gap, newline, atEnd =>
    ∃ body gap' newline', ¬ ['*', '/'] <:+: body ∧ gap = body ++ '*' :: '/' :: gap' ∧
      newline = (decide ('\n' ∈ body) || newline') ∧ Gap gap' newline' atEnd

namespace GapFrom

variable {gap : List Char} {newline : Bool} {atEnd : Prop} {c : Char}

theorem lineComment (h : GapFrom .lineComment gap newline atEnd) : GapFrom .code ('/' :: '/' :: gap) newline atEnd := by
  obtain ⟨body, hbody, ⟨hend, rfl, rfl⟩ | ⟨gap', newline', rfl, rfl, hgap⟩⟩ := h
  · exact .last hend hbody
  · have hcons := Gap.cons (f := .lineComment body) hbody hgap
    rwa [Filler.text, Filler.endsLine, Bool.true_or, List.append_assoc, List.append_assoc] at hcons

theorem blockComment {start : Nat} (h : GapFrom (.blockComment start) gap newline atEnd) :
    GapFrom .code ('/' :: '*' :: gap) newline atEnd := by
  obtain ⟨body, gap', newline', hbody, rfl, rfl, hgap⟩ := h
  have hcons := Gap.cons (f := .blockComment body) hbody hgap
  rwa [Filler.text, Filler.endsLine, List.append_assoc, List.append_assoc] at hcons

theorem blank (h : GapFrom .code gap newline atEnd) (hc : isBlank c = true) :
    GapFrom .code (c :: gap) ((Filler.blank c).endsLine || newline) atEnd :=
  Gap.cons (f := .blank c) hc h

/-- A character that does not end the line. -/
theorem inLine (h : GapFrom .lineComment gap newline atEnd) (hc : c ≠ '\n') :
    GapFrom .lineComment (c :: gap) newline atEnd := by
  obtain ⟨body, hbody, hrest⟩ := h
  refine ⟨c :: body, fun hmem => (List.mem_cons.1 hmem).elim (fun heq => hc heq.symm) hbody, ?_⟩
  rcases hrest with ⟨hend, rfl, rfl⟩ | ⟨gap', newline', rfl, rfl, hgap⟩
  · exact .inl ⟨hend, rfl, rfl⟩
  · exact .inr ⟨gap', newline', rfl, rfl, hgap⟩

/-- A character of a comment that does not start its end. -/
theorem inBlock {start : Nat} (h : GapFrom (.blockComment start) gap newline atEnd)
    (hc : c = '*' → gap.head? ≠ some '/') : GapFrom (.blockComment start) (c :: gap) (c = '\n' || newline) atEnd := by
  obtain ⟨body, gap', newline', hbody, rfl, rfl, hgap⟩ := h
  refine ⟨c :: body, gap', newline', ?_, rfl, ?_, hgap⟩
  · rw [List.infix_cons_iff, not_or]
    refine ⟨fun hprefix => ?_, hbody⟩
    obtain ⟨hstar, hslash⟩ := List.cons_prefix_cons.1 hprefix
    cases body with
    | nil => exact absurd hslash (by simp)
    | cons x body => exact hc hstar.symm (congrArg some (List.cons_prefix_cons.1 hslash).1.symm)
  · rw [← Bool.or_assoc, ← Bool.decide_or]
    congr 1
    simp [eq_comm]

end GapFrom

theorem isBlank_of_isAsciiBlank {c : Char} (h : isAsciiBlank c = true) :
    isBlank c = true ∧ (Filler.blank c).endsLine = false := by
  simp only [isAsciiBlank, Bool.or_eq_true, decide_eq_true_eq] at h
  rcases h with (((rfl | rfl) | rfl) | rfl) | rfl <;> exact ⟨rfl, rfl⟩

/-- What is skipped is a gap, and a line ends on the way if it does in the gap. -/
theorem skipTrivia_gap {trivia : Trivia} {o : Nat} {newline newline' : Bool} {cs : List Char} {next : Cursor}
    (h : skipTrivia trivia o newline cs = .ok (newline', next)) :
    ∃ gap ends, cs = gap ++ next.rest ∧ newline' = (newline || ends) ∧ GapFrom trivia gap ends (next.rest = []) := by
  fun_induction skipTrivia trivia o newline cs with
  | case1 =>
      cases h
      exact ⟨[], false, rfl, (Bool.or_false _).symm, .nil⟩
  | case2 _ _ _ ih =>
      obtain ⟨gap, ends, rfl, hends, hgap⟩ := ih h
      exact ⟨_, _, rfl, hends, hgap.lineComment⟩
  | case3 _ _ _ ih =>
      obtain ⟨gap, ends, rfl, hends, hgap⟩ := ih h
      exact ⟨_, _, rfl, hends, hgap.blockComment⟩
  | case4 _ _ _ _ _ ih =>
      obtain ⟨gap, ends, rfl, hends, hgap⟩ := ih h
      refine ⟨_, _, rfl, ?_, hgap.blank (by rfl)⟩
      rw [hends]
      simp [Filler.endsLine]
  | case5 _ _ _ _ _ _ hline hblank ih =>
      obtain ⟨gap, ends, rfl, hends, hgap⟩ := ih h
      refine ⟨_, _, rfl, ?_, hgap.blank (isBlank_of_isAsciiBlank hblank).1⟩
      rw [hends, (isBlank_of_isAsciiBlank hblank).2, Bool.false_or]
  | case6 _ _ _ _ _ _ hline _ hblank ih =>
      obtain ⟨gap, ends, rfl, hends, hgap⟩ := ih h
      rw [Bool.and_eq_true] at hblank
      refine ⟨_, _, rfl, ?_, hgap.blank hblank.2⟩
      rw [hends]
      simp [Filler.endsLine, hline, Bool.or_assoc]
  | case7 =>
      cases h
      exact ⟨[], false, rfl, (Bool.or_false _).symm, .nil⟩
  | case8 =>
      cases h
      exact ⟨[], false, rfl, (Bool.or_false _).symm, [], List.not_mem_nil, .inl ⟨rfl, rfl, rfl⟩⟩
  | case9 _ _ _ ih =>
      obtain ⟨gap, ends, rfl, hends, hgap⟩ := ih h
      exact ⟨_, true, rfl, by simpa using hends, [], List.not_mem_nil, .inr ⟨gap, ends, rfl, rfl, hgap⟩⟩
  | case10 _ _ _ _ hline ih =>
      obtain ⟨gap, ends, rfl, hends, hgap⟩ := ih h
      exact ⟨_, _, rfl, hends, hgap.inLine hline⟩
  | case11 => cases h
  | case12 _ _ _ _ ih =>
      obtain ⟨gap, ends, rfl, hends, hgap⟩ := ih h
      exact ⟨_, ends, rfl, hends, [], gap, ends, by simp, rfl, rfl, hgap⟩
  | case13 _ _ _ _ _ hclose ih =>
      obtain ⟨gap, ends, rfl, hends, hgap⟩ := ih h
      refine ⟨_, _, rfl, ?_, hgap.inBlock ?_⟩
      · rw [hends, Bool.or_assoc]
      · rintro rfl hhead
        obtain ⟨rest, rfl⟩ := List.head?_eq_some_iff.1 hhead
        exact hclose _ rfl rfl

/-! ## Tokens -/

/-- What one call passes: a gap, and behind it the text of a token, which is empty only at the end. -/
structure Tile (front gap w rest : List Char) (t : Token) : Prop where
  isGap : Gap gap t.newlineBefore (w ++ rest = [])
  span : t.span = ⟨byteLength (front ++ gap), byteLength (front ++ gap ++ w)⟩
  text : t.text = String.ofList w
  solid : t.isEof = false → w ≠ []
  ends : t.isEof = true → w ++ rest = []

theorem scanToken_tile {d d' : Depths} {front rest : List Char} {next : Cursor} {t : Token}
    (h : scanToken d ⟨rest, byteLength front⟩ = .ok (t, d', next)) :
    ∃ gap w, rest = gap ++ w ++ next.rest ∧ next.offset = byteLength (front ++ gap ++ w) ∧
      Tile front gap w next.rest t := by
  simp only [scanToken] at h
  split at h
  · cases h
  rename_i newline first htrivia
  split at h
  · cases h
  rename_i kind depths after hkind
  cases h
  obtain ⟨gap, ends, hrest, hends, hgap⟩ := skipTrivia_gap htrivia
  obtain ⟨w, hw⟩ := scanKind_passes hkind
  have hfirst : first.offset = byteLength (front ++ gap) := by
    obtain ⟨gap', hmoves⟩ := skipTrivia_moves htrivia
    obtain rfl : gap' = gap := List.append_cancel_right (hmoves.rest.symm.trans hrest)
    rw [hmoves.offset, byteLength_append]
  have hnext : next.offset = byteLength (front ++ gap ++ w) := by
    rw [hw.offset, hfirst, ← byteLength_append]
  refine ⟨gap, w, by rw [hrest, hw.rest, List.append_assoc], hnext, ?_, ?_, ?_, ?_, ?_⟩
  · rw [Bool.false_or] at hends
    rw [← hw.rest]
    exact hends ▸ hgap
  · exact congrArg₂ Span.mk hfirst hnext
  · exact congrArg String.ofList hw.upTo_eq
  · exact fun hsolid => hw.ne_nil ((isEof_eq _).symm.trans hsolid)
  · intro hend
    rw [← hw.rest]
    exact rest_of_isEnd hkind ((isEof_eq _).symm.trans hend)

/-! ## Streams -/

/-- The tokens of a text behind another one, up to the mark of its end or to a fault. -/
inductive Tiles : List Char → List Char → List Token → Option SyntaxFault → Prop
  | token {front gap w rest : List Char} {t : Token} {tokens : List Token} {fault : Option SyntaxFault}
      (tile : Tile front gap w rest t) (goesOn : t.isEof = false) (more : Tiles (front ++ gap ++ w) rest tokens fault) :
      Tiles front (gap ++ w ++ rest) (t :: tokens) fault
  | ends {front gap : List Char} {t : Token} (tile : Tile front gap [] [] t) (ends : t.isEof = true) :
      Tiles front gap [t] none
  | fails {front rest : List Char} {fault : SyntaxFault} (cause : fault.cause ≠ .exhausted) :
      Tiles front rest [] (some fault)

/-- As every token takes a character, the bound on their number is not met. -/
theorem scan_tiles {fuel : Nat} {d : Depths} {front rest : List Char} (hfuel : rest.length < fuel) :
    Tiles front rest (Stream.scan fuel d ⟨rest, byteLength front⟩).toList.1
      (Stream.scan fuel d ⟨rest, byteLength front⟩).toList.2 := by
  induction fuel generalizing d front rest with
  | zero => omega
  | succ fuel ih =>
      unfold Stream.scan
      split
      · rename_i fault hfault
        exact .fails (scanToken_textual d _ fault hfault)
      · rename_i t d' next htoken
        obtain ⟨gap, w, rfl, hoffset, htile⟩ := scanToken_tile htoken
        obtain ⟨rest, o⟩ := next
        subst hoffset
        split
        · rename_i heof
          obtain ⟨rfl, rfl⟩ := List.append_eq_nil_iff.1 (htile.ends heof)
          rw [List.append_nil, List.append_nil]
          exact .ends htile heof
        · rename_i heof
          rw [Bool.not_eq_true] at heof
          have hpos := List.length_pos_iff.2 (htile.solid heof)
          rw [List.length_append, List.length_append] at hfuel
          exact .token htile heof (ih (by omega))

namespace Tiles

variable {front rest : List Char} {tokens : List Token} {fault : Option SyntaxFault}

/-- Each call but the last one takes a byte. -/
theorem calls_le (h : Tiles front rest tokens fault) : tokens.length + fault.toList.length ≤ byteLength rest + 1 := by
  induction h with
  | token tile goesOn _ ih =>
      have hpos := byteLength_pos (tile.solid goesOn)
      rw [List.length_cons, byteLength_append, byteLength_append]
      omega
  | ends => exact Nat.le_add_left _ _
  | fails => exact Nat.le_add_left _ _

/-- Where a token stands. -/
theorem mem (h : Tiles front rest tokens fault) {t : Token} (ht : t ∈ tokens) :
    ∃ before after, front ++ rest = before ++ t.text.toList ++ after ∧
      t.span = ⟨byteLength before, byteLength (before ++ t.text.toList)⟩ ∧
      byteLength front ≤ byteLength before ∧ (t.isEof = false → t.text.toList ≠ []) := by
  induction h with
  | @token front gap w rest t' _ _ tile goesOn _ ih =>
      rcases List.mem_cons.1 ht with rfl | ht
      · obtain rfl : t.text.toList = w := by rw [tile.text, String.toList_ofList]
        refine ⟨front ++ gap, rest, by simp only [List.append_assoc], tile.span, ?_, tile.solid⟩
        rw [byteLength_append]
        omega
      · obtain ⟨before, after, hparts, hspan, hle, hsolid⟩ := ih ht
        refine ⟨before, after, by rw [← hparts]; simp only [List.append_assoc], hspan, ?_, hsolid⟩
        rw [byteLength_append, byteLength_append] at hle
        omega
  | @ends front gap t' tile heof =>
      obtain rfl := List.mem_singleton.1 ht
      have htext : t.text.toList = [] := by rw [tile.text, String.toList_ofList]
      refine ⟨front ++ gap, [], by simp only [htext, List.append_nil], htext ▸ tile.span, ?_, htext ▸ tile.solid⟩
      rw [byteLength_append]
      omega
  | fails => cases ht

/-- Tokens stand in order. -/
theorem ordered (h : Tiles front rest tokens fault) : tokens.Pairwise fun t t' => t.span.stop ≤ t'.span.start := by
  induction h with
  | token tile goesOn more ih =>
      refine .cons (fun t' ht' => ?_) ih
      obtain ⟨before, after, -, hspan, hle, -⟩ := more.mem ht'
      rw [tile.span, hspan]
      exact hle
  | ends => exact List.pairwise_singleton _ _
  | fails => exact .nil

end Tiles

/-- Behind every character of a source, the calls for tokens end after at most one for each byte that is left and one
more. They find a row of gaps and tokens, which stand in order, each of them on at least one character. -/
theorem ofSource_tiles (front rest : List Char) :
    let read := (Stream.ofSource ⟨front ++ rest⟩ (byteLength front)).toList
    Tiles front rest read.1 read.2 ∧
      read.1.length + read.2.toList.length ≤ byteLength rest + 1 ∧
      (read.1.Pairwise fun t t' => t.span.stop ≤ t'.span.start) ∧
      ∀ t ∈ read.1, t.isEof = false → t.span.start < t.span.stop ∧ ∃ before after,
        front ++ rest = before ++ t.text.toList ++ after ∧
          t.span = ⟨byteLength before, byteLength (before ++ t.text.toList)⟩ := by
  intro read
  have htiles : Tiles front rest read.1 read.2 := by
    have hmin : min (byteLength front) (Source.mk (front ++ rest)).size = byteLength front := by
      rw [Source.size, byteLength_append]
      omega
    have hread : read = (Stream.scan (rest.length + 1) [] ⟨rest, byteLength front⟩).toList := by
      simp only [read, Stream.ofSource, hmin, dropBytes?_append]
    rw [hread]
    exact scan_tiles (Nat.lt_succ_self _)
  refine ⟨htiles, htiles.calls_le, htiles.ordered, fun t ht hsolid => ?_⟩
  obtain ⟨before, after, hparts, hspan, -, hne⟩ := htiles.mem ht
  refine ⟨?_, before, after, hparts, hspan⟩
  have hpos := byteLength_pos (hne hsolid)
  rw [hspan, byteLength_append]
  exact Nat.lt_add_of_pos_right hpos

/-- The end of a line counts inside comments, the other characters that end lines only outside of them. -/
example : ((Stream.ofSource (.ofString ";/*\n*/;/*\u2028*/;\u2028;// e") 0).toList.1.map (·.newlineBefore)) =
    [false, true, false, true, false] := by decide +kernel

end FieldScript.Token
