import FieldScript.Proofs.Parse.TwinRuns
import FieldScript.Proofs.Token.Fence

/-!
# Expressions in front of a closing brace

An expression is read from its own text: where a closing brace follows it, the text behind the brace does not matter, nor
does the text in front of the expression (`exprAt_alongside`).

Tokens that a parser has passed are scanned again in front of every text that starts like the one left behind them
(`twin_of_crosses`). The parser leaves no bracket open, so the scan is outside of all templates when it gets to the brace,
and that brace is a token of its own. It closes more than is open, which is where twins end.
-/

namespace FieldScript

open Text
open Token (Alongside Cursor Depths Kind Moves Stream)

/-! ## Depths -/

/-- The depths that the scan keeps while brackets are open: braces inside each substitution. -/
def Nest.depths : Nest → Depths
  | [] => []
  | .substitution :: o => 0 :: depths o
  | .brace :: o => (depths o).modifyHead (· + 1)
  | _ :: o => depths o

namespace Token

/-- The depths behind a token. -/
def Kind.depths (D : Depths) : Kind → Depths
  | .punct mark => D.after mark
  | .templateHead _ => 0 :: D
  | .templateMiddle _ => 0 :: D.tail
  | .templateTail _ => D.tail
  | _ => D

theorem depths_wordKind (word : String) (D : Depths) : (wordKind word).depths D = D := by
  rcases wordKind_cases word with ⟨k, hkind, -⟩ | hkind | hkind <;> rw [hkind] <;> rfl

theorem scanTemplate_depths {found : Scan (TemplatePart × TemplateEnd × Cursor)} {D D' : Depths} {next : Cursor}
    {kind : Kind} (head : Bool)
    (h : (match found with
      | .ok (part, ending, next) =>
        (.ok (templateKind head part ending, (match ending with
          | .closed => if head then D else D.tail
          | .substitution => 0 :: if head then D else D.tail), next) : Scan (Kind × Depths × Cursor))
      | .error fault => .error fault) = .ok (kind, D', next)) : D' = kind.depths D := by
  split at h
  · rename_i part ending after
    cases h
    cases head <;> cases ending <;> rfl
  · cases h

theorem scanKind_depths {D D' : Depths} {c next : Cursor} {kind : Kind} (h : scanKind D c = .ok (kind, D', next)) :
    D' = kind.depths D := by
  have hnumber : (scanNumber c).map (fun found => (Kind.number found.1, D, found.2)) = .ok (kind, D', next) →
      D' = kind.depths D := by
    intro hmap
    obtain ⟨⟨value, after⟩, -, hresult⟩ := Parse.exists_of_map hmap
    cases hresult
    rfl
  obtain ⟨cs, o⟩ := c
  cases cs with
  | nil =>
      cases h
      rfl
  | cons x rest =>
      simp only [scanKind, Cursor.drop_one] at h
      split at h
      · obtain ⟨⟨s, after⟩, -, hresult⟩ := Parse.exists_of_map h
        cases hresult
        rfl
      split at h
      · exact scanTemplate_depths true h
      split at h
      · exact hnumber h
      split at h
      · exact hnumber h
      split at h
      · exact scanTemplate_depths false h
      split at h
      · cases h
        exact (depths_wordKind _ D).symm
      split at h
      · cases h
        rfl
      · cases h

theorem Kind.depths_of_nest {kind : Kind} {o r : Nest} (h : kind.nest o = some r) : kind.depths o.depths = r.depths := by
  have hclose : ∀ {b r}, o.close b = some r → o = b :: r := by
    intro b r hb
    cases o with
    | nil => cases hb
    | cons b' o =>
        simp only [Nest.close, Option.ite_none_right_eq_some, Option.some.injEq] at hb
        rw [hb.1, hb.2]
  unfold Kind.nest at h
  split at h
  · cases h
    show o.depths.after .openParen = o.depths
    cases o.depths <;> rfl
  · cases h
    show o.depths.after .openBracket = o.depths
    cases o.depths <;> rfl
  · cases h
    show o.depths.after .openBrace = o.depths.modifyHead (· + 1)
    cases o.depths <;> rfl
  · rw [hclose h]
    show r.depths.after .closeParen = r.depths
    cases r.depths <;> rfl
  · rw [hclose h]
    show r.depths.after .closeBracket = r.depths
    cases r.depths <;> rfl
  · rw [hclose h]
    show Depths.after (r.depths.modifyHead (· + 1)) .closeBrace = r.depths
    cases r.depths <;> rfl
  · cases h
    rfl
  · obtain ⟨r', hr', rfl⟩ := Option.map_eq_some_iff.1 h
    rw [hclose hr']
    rfl
  · rw [hclose h]
    rfl
  · rename_i h₁ h₂ h₃ h₄ h₅ h₆ h₇ h₈ h₉
    cases h
    cases kind with
    | punct mark =>
        show o.depths.after mark = o.depths
        cases hdepths : o.depths with
        | nil => rfl
        | cons depth outer =>
            have hopen : mark ≠ .openBrace := fun hmark => h₃ (by rw [hmark])
            have hend : mark ≠ .closeBrace := fun hmark => h₆ (by rw [hmark])
            show (if mark = .openBrace then _ else if mark = .closeBrace then _ else _) = _
            rw [if_neg hopen, if_neg hend]
    | templateHead part => exact absurd rfl (h₇ part)
    | templateMiddle part => exact absurd rfl (h₈ part)
    | templateTail part => exact absurd rfl (h₉ part)
    | _ => rfl

/-! ## Twins of scans -/

/-- A closing brace outside of all templates. -/
theorem scanToken_brace {c : Cursor} {newline : Bool} {v : List Char} {q : Nat}
    (h : skipTrivia .code c.offset false c.rest = .ok (newline, ⟨'}' :: v, q⟩)) :
    scanToken [] c = .ok (⟨.punct .closeBrace, ⟨q, q + 1⟩, newline, String.ofList ['}']⟩, [], ⟨v, q + 1⟩) := by
  have hscans : (Lexeme.mark .closeBrace).Scans [] [] v :=
    Lexeme.mark_scans (leadingPunct?_tight rfl v) nofun nofun fun _ => nofun
  have hkind : scanKind [] ⟨'}' :: v, q⟩ = .ok (.punct .closeBrace, [], ⟨v, q + 1⟩) := hscans.kind q
  have hupTo : (⟨'}' :: v, q⟩ : Cursor).upTo ⟨v, q + 1⟩ = ['}'] := Cursor.upTo_append (w := ['}'])
  simp only [scanToken, h, hkind, hupTo]

theorem scanToken_length_lt {D D' : Depths} {c next : Cursor} {t : Token} (h : scanToken D c = .ok (t, D', next))
    (ht : t.isEof = false) : next.rest.length < c.rest.length := by
  obtain ⟨blank, first, w, hblank, hw, -⟩ := scanToken_moves h
  rw [isEof_eq] at ht
  exact Nat.lt_of_lt_of_le (hw.length_lt (hw.ne_nil ht)) hblank.length_le

theorem scanToken_stop {D D' : Depths} {c next : Cursor} {t : Token} (h : scanToken D c = .ok (t, D', next)) :
    t.span.stop = next.offset := by
  obtain ⟨_, _, _, _, _, hspan⟩ := scanToken_moves h
  rw [hspan]

theorem Stream.scan_succ {D D' : Depths} {c next : Cursor} {t : Token} (h : scanToken D c = .ok (t, D', next))
    (ht : t.isEof = false) (fuel : Nat) : scan (fuel + 1) D c = .cons t (scan fuel D' next) := by
  simp only [scan, h, ht, Bool.false_eq_true, if_false]

theorem scanToken_depths {D D' : Depths} {c next : Cursor} {t : Token} (h : scanToken D c = .ok (t, D', next)) :
    D' = t.kind.depths D := by
  simp only [scanToken] at h
  split at h
  · cases h
  split at h
  · cases h
  · rename_i kind depths after hkind
    cases h
    exact scanKind_depths hkind

end Token

theorem Twin.refl {s : Stream} {I : Ident → Prop} (hs : s.Names I) (o : Nest) : Twin 0 o s s := by
  induction s generalizing o with
  | cons t rest ih => exact ⟨rest, rfl, fun o' _ => ih hs.2.2 o'⟩
  | done t => exact ⟨hs, rfl⟩
  | failed fault => trivial

namespace Parse

open Token (scanToken scanToken_alongside scanToken_brace scanToken_depths scanToken_length_lt scanToken_stop skipTrivia
  skipTrivia_alongside)

variable {d : Nat} {o : Nest} {st st' : State} {c : Cursor} {fuel : Nat}

/-- Where a scan is crossed without leaving a bracket open, it has moved forward in the text. The tokens that were crossed
are scanned alike in front of every text alongside the one that is left. -/
theorem twin_of_crosses {o' : Nest} (hcrosses : Crosses o st o' st') (ho' : o' = [])
    (hst : st = ⟨.scan fuel o.depths c, c.offset⟩) :
    ∃ w c' m, Moves c w c' ∧ st' = ⟨.scan m [] c', c'.offset⟩ ∧ (c.rest.length < fuel → c'.rest.length < m) ∧
      ∀ d r', Alongside c'.rest r' →
        (∀ m, r'.length < m → Twin d [] st'.stream (.scan m [] ⟨r', c'.offset + d⟩)) →
          ∀ m, (w ++ r').length < m → Twin d o st.stream (.scan m o.depths ⟨w ++ r', c.offset + d⟩) := by
  induction hcrosses generalizing c fuel with
  | refl o st =>
      subst ho' hst
      exact ⟨[], c, fuel, .refl c, rfl, id, fun d r' _ htwin => htwin⟩
  | @step o r o' t rest lastEnd st' nest more ih =>
      cases fuel with
      | zero => cases hst
      | succ fuel =>
          obtain ⟨hstream, rfl⟩ := State.mk.inj hst
          unfold Stream.scan at hstream
          split at hstream
          · cases hstream
          rename_i t' D' next htoken
          split at hstream
          · cases hstream
          rename_i hend
          obtain ⟨rfl, rfl⟩ := Stream.cons.inj hstream
          have hend : t.isEof = false := by simpa using hend
          have hdepths : D' = r.depths := (scanToken_depths htoken).trans (Kind.depths_of_nest nest)
          subst hdepths
          obtain ⟨w, c', k, hw, hlast, hk, htwin⟩ := ih ho' (c := next) (by rw [scanToken_stop htoken])
          obtain ⟨front, hfront, hagain⟩ := scanToken_alongside htoken hend
          have hshorter := scanToken_length_lt htoken hend
          refine ⟨front ++ w, c', k, hfront.trans hw, hlast, fun hlt => hk (by omega), fun d r' hr' hbehind m hm => ?_⟩
          obtain ⟨m, rfl⟩ : ∃ k, m = k + 1 := ⟨m - 1, by omega⟩
          have htoken' := hagain d (w ++ r') (by rw [hw.rest]; exact hr'.append w)
          have hlt := scanToken_length_lt htoken' hend
          rw [List.append_assoc] at hm ⊢
          rw [Stream.scan_succ htoken' hend]
          refine ⟨_, rfl, fun r'' hr'' => ?_⟩
          obtain rfl : r'' = r := Option.some.inj (hr''.symm.trans nest)
          exact htwin d r' hr' hbehind m (Nat.lt_of_lt_of_le hlt (Nat.le_of_lt_succ hm))

/-- Behind a closing brace that nothing has opened twins may differ. -/
theorem twin_of_brace {blank v v' : List Char} {newline : Bool} {q m : Nat} (hblank : c.rest = blank ++ '}' :: v)
    (htrivia : skipTrivia .code c.offset false c.rest = .ok (newline, ⟨'}' :: v, q⟩))
    (hm : (blank ++ '}' :: v').length < m) :
    Twin d [] (.scan fuel [] c) (.scan m [] ⟨blank ++ '}' :: v', c.offset + d⟩) := by
  cases fuel with
  | zero => exact trivial
  | succ fuel =>
      obtain ⟨m, rfl⟩ : ∃ k, m = k + 1 := ⟨m - 1, by omega⟩
      obtain ⟨blank', hmoves, -, -, hagain⟩ := skipTrivia_alongside htrivia (List.cons_ne_nil _ _)
      obtain rfl : blank' = blank := List.append_cancel_right (hmoves.rest.symm.trans hblank)
      have hsolid : Token.Solid '}' v' := ⟨nofun, nofun, rfl, rfl⟩
      have htoken := scanToken_brace htrivia
      have htoken' := scanToken_brace (c := ⟨blank' ++ '}' :: v', c.offset + d⟩) (hagain d '}' v' hsolid)
      rw [Stream.scan_succ htoken rfl, Stream.scan_succ htoken' rfl]
      refine ⟨.scan m [] ⟨v', q + d + 1⟩, ?_, nofun⟩
      simp only [Token.moved, Span.moved, Nat.add_right_comm]

/-- A text is scanned alike wherever it stands. -/
theorem twin_of_moved {m : Nat} (hm : c.rest.length < m) :
    Twin d o (.scan fuel o.depths c) (.scan m o.depths ⟨c.rest, c.offset + d⟩) := by
  induction fuel generalizing o c m with
  | zero => exact trivial
  | succ fuel ih =>
      obtain ⟨m, rfl⟩ : ∃ k, m = k + 1 := ⟨m - 1, by omega⟩
      cases htoken : scanToken o.depths c with
      | error fault =>
          rw [Stream.scan, htoken]
          trivial
      | ok found =>
          obtain ⟨t, D, next⟩ := found
          cases hend : t.isEof with
          | true =>
              obtain ⟨next', htoken'⟩ := Token.scanToken_end htoken hend d
              simp only [Stream.scan, htoken, htoken', Token.moved_isEof, hend, if_true]
              exact ⟨hend, rfl⟩
          | false =>
              obtain ⟨front, hfront, hagain⟩ := scanToken_alongside htoken hend
              have htoken' := hagain d next.rest (.refl _)
              rw [← hfront.rest] at htoken'
              rw [Stream.scan_succ htoken hend, Stream.scan_succ htoken' hend]
              refine ⟨_, rfl, fun r hr => ?_⟩
              obtain rfl : D = r.depths := (scanToken_depths htoken).trans (Kind.depths_of_nest hr)
              have hlt := scanToken_length_lt htoken hend
              exact ih (by omega)

/-! ## Runs -/

/-- A run on a stream takes the way of a run on a twin of it, which passes a token at least. -/
theorem run_twin {s s₂ : Stream} {offset : Nat} {e : Expr} {state : State} (hrun : run s offset = .ok (e, state))
    (htwin : Twin d [] s s₂) : Crosses [] ⟨s, offset⟩ [] state ∧ state.stream.length < s.length ∧
      ∃ state₂, run s₂ (offset + d) = .ok (e.moved d, state₂) ∧ state₂.lastEnd = state.lastEnd + d := by
  have hg := grammar_matches d (s.length + 1) (s₂.length + 1)
  obtain ⟨state₂, hrun₂, habreast, hcrosses, hcount, -⟩ := sequence_matches (N := AnyStream) (o := []) hg
    (assignment_matches hg) (Nat.le_refl _) ⟨s, offset⟩ ⟨s₂, offset + d⟩ ⟨htwin, rfl⟩
    (Nat.lt_succ_of_lt (Nat.lt_succ_self _)) trivial e state hrun
  exact ⟨hcrosses, hcount, state₂, hrun₂, habreast.lastEnd⟩

theorem head_of_atPunct {mark : Punct} {b : Bool} (h : atPunct mark st = .ok (b, st')) :
    st' = st ∧ ∃ t, nth 0 st.stream = .ok t ∧ t.isPunct mark = b := by
  obtain ⟨t, mid, hpeek, hresult⟩ := exists_of_bind h
  obtain ⟨ht, rfl⟩ := Matches.nth_of_peekNth (i := 0) hpeek
  cases hresult
  exact ⟨rfl, t, ht, rfl⟩

/-- Assignments are read up to a token that is no comma. -/
theorem moreAssignments_head {g : Grammar} {es : List Expr} (h : moreAssignments g fuel st = .ok (es, st')) :
    ∃ t, nth 0 st'.stream = .ok t ∧ t.isPunct .comma = false := by
  induction fuel generalizing st es with
  | zero => cases h
  | succ fuel ih =>
      obtain ⟨eaten, mid, heat, hrest⟩ := exists_of_bind h
      cases eaten with
      | true =>
          obtain ⟨e, mid', -, hrest⟩ := exists_of_bind hrest
          obtain ⟨es', last, hmore, hresult⟩ := exists_of_bind hrest
          cases hresult
          exact ih hmore
      | false =>
          cases hrest
          obtain ⟨b, mid', hat, hresult⟩ := exists_of_bind heat
          obtain ⟨rfl, t, ht, hcomma⟩ := head_of_atPunct hat
          cases b with
          | true =>
              obtain ⟨t', last, -, hresult⟩ := exists_of_bind hresult
              cases hresult
          | false =>
              cases hresult
              exact ⟨t, ht, hcomma⟩

theorem sequence_head {g : Grammar} {first : Parser Expr} {e : Expr} (h : sequence g first st = .ok (e, st')) :
    ∃ t, nth 0 st'.stream = .ok t ∧ t.isPunct .comma = false := by
  obtain ⟨e', mid, -, hrest⟩ := exists_of_bind h
  obtain ⟨b, mid', hat, hrest⟩ := exists_of_bind hrest
  obtain ⟨rfl, t, ht, hcomma⟩ := head_of_atPunct hat
  cases b with
  | true =>
      obtain ⟨n, mid, -, hrest⟩ := exists_of_bind hrest
      obtain ⟨es, last, hmore, hresult⟩ := exists_of_bind hrest
      cases hresult
      exact moreAssignments_head hmore
  | false =>
      cases hrest
      exact ⟨t, ht, hcomma⟩

end Parse

open Parse (run run_twin sequence_head twin_of_brace twin_of_crosses)

theorem Token.Stream.ofSource_append {source : Source} {front rest : List Char} (h : source.chars = front ++ rest) :
    ofSource source (byteLength front) = .scan (rest.length + 1) [] ⟨rest, byteLength front⟩ := by
  have hle : byteLength front ≤ source.size := by
    rw [Source.size, h, byteLength_append]
    exact Nat.le_add_right _ _
  simp only [ofSource, Nat.min_eq_left hle, h, dropBytes?_append]

namespace Source

/-- Where an expression is read, the source has text. -/
theorem exists_of_run {source : Source} {start : Nat} {e : Expr} {state : Parse.State}
    (hrun : run (.ofSource source start) start = .ok (e, state)) :
    ∃ front rest, source.chars = front ++ rest ∧ start = byteLength front := by
  obtain ⟨-, hlength, -⟩ := run_twin hrun (.refl (Stream.ofSource_names source start) [])
  by_cases hle : start ≤ source.size
  · simp only [Stream.ofSource, Nat.min_eq_left hle] at hlength
    split at hlength
    · rename_i rest hrest
      obtain ⟨front, hchars, hfront⟩ := Token.exists_of_dropBytes? hrest
      exact ⟨front, rest, hchars, hfront⟩
    · exact absurd hlength (Nat.not_lt_zero _)
  · -- behind the end of the source there is no token
    have hend : Stream.ofSource source start = Stream.ofSource source source.size := by
      simp only [Stream.ofSource, Nat.min_eq_right (Nat.le_of_not_le hle), Nat.min_self]
    rw [hend, Source.size, Stream.ofSource_append (List.append_nil _).symm] at hlength
    exact absurd hlength (Nat.not_lt_zero _)

/-- What is left behind an expression is scanned from the place in the source where its last token ends. -/
theorem scan_of_run {source : Source} {start : Nat} {e : Expr} {state : Parse.State}
    (hrun : run (.ofSource source start) start = .ok (e, state)) :
    ∃ passed c k, source.chars = passed ++ c.rest ∧ c.offset = byteLength passed ∧ state = ⟨.scan k [] c, c.offset⟩ := by
  obtain ⟨front, cs, hchars, rfl⟩ := exists_of_run hrun
  have hnames := Stream.ofSource_names source (byteLength front)
  rw [Stream.ofSource_append hchars] at hrun hnames
  obtain ⟨hcrosses, -, -⟩ := run_twin hrun (.refl hnames [])
  obtain ⟨w, c, k, hw, hstate, -, -⟩ := twin_of_crosses hcrosses rfl (c := ⟨cs, byteLength front⟩) rfl
  have hcs : cs = w ++ c.rest := hw.rest
  refine ⟨front ++ w, c, k, ?_, by rw [hw.offset, byteLength_append], hstate⟩
  rw [hchars, hcs, List.append_assoc]

/-- Behind an expression the scan goes on, and not with a comma. -/
theorem exprAt_next {source : Source} {start stop : Nat} {e : Expr} (hparsed : source.exprAt start = .ok ⟨e, stop⟩) :
    ∃ behind t D next, dropBytes? stop source.chars = some behind ∧
      Token.scanToken [] ⟨behind, stop⟩ = .ok (t, D, next) ∧ t.isPunct .comma = false := by
  unfold exprAt at hparsed
  split at hparsed
  · rename_i e state hrun
    cases hparsed
    obtain ⟨t, ht, hcomma⟩ := sequence_head hrun
    obtain ⟨passed, c', k, hchars, hplace, hstate⟩ := scan_of_run hrun
    rw [hstate] at ht
    -- the token at hand has been scanned
    obtain ⟨D, next, hscan⟩ : ∃ D next, Token.scanToken [] c' = .ok (t, D, next) := by
      cases k with
      | zero => cases ht
      | succ k =>
          simp only [Stream.scan] at ht
          split at ht
          · cases ht
          · rename_i t' D next hscan
            split at ht <;> cases ht <;> exact ⟨D, next, hscan⟩
    refine ⟨c'.rest, t, D, next, ?_, ?_, hcomma⟩
    · rw [hstate, hplace, hchars, dropBytes?_append]
    · rwa [hstate]
  · cases hparsed

/-- An expression in front of a closing brace is read in the same way in every source that has the same text from its
start to the brace, wherever this text stands. -/
theorem exprAt_alongside {source : Source} {start stop q : Nat} {e : Expr} {behind rest : List Char} {newline : Bool}
    (hparsed : source.exprAt start = .ok ⟨e, stop⟩) (hbehind : dropBytes? stop source.chars = some behind)
    (htrivia : Token.skipTrivia .code stop false behind = .ok (newline, ⟨'}' :: rest, q⟩)) :
    ∃ front text, source.chars = front ++ (text ++ '}' :: rest) ∧ byteLength front = start ∧
      q = start + byteLength text ∧ ∀ (source₂ : Source) front₂ v' d, source₂.chars = front₂ ++ (text ++ '}' :: v') →
        byteLength front₂ = start + d → source₂.exprAt (start + d) = .ok ⟨e.moved d, stop + d⟩ := by
  unfold exprAt at hparsed
  split at hparsed
  · rename_i e state hrun
    cases hparsed
    obtain ⟨front, cs, hchars, rfl⟩ := exists_of_run hrun
    have hnames := Stream.ofSource_names source (byteLength front)
    rw [Stream.ofSource_append hchars] at hrun hnames
    obtain ⟨hcrosses, -, -⟩ := run_twin hrun (.refl hnames [])
    obtain ⟨w, c', k, hw, hstate, -, htwin⟩ := twin_of_crosses hcrosses rfl (c := ⟨cs, byteLength front⟩) rfl
    have hstop : state.lastEnd = c'.offset := by rw [hstate]
    obtain ⟨blank, hblank⟩ := Token.skipTrivia_moves htrivia
    have hcs : cs = w ++ c'.rest := hw.rest
    have hplace : state.lastEnd = byteLength (front ++ w) := by rw [hstop, hw.offset, byteLength_append]
    obtain rfl : c'.rest = behind := by
      rw [hplace, hchars, hcs, ← List.append_assoc, dropBytes?_append] at hbehind
      exact Option.some.inj hbehind
    have hrest : c'.rest = blank ++ '}' :: rest := hblank.rest
    have hoffset : q = state.lastEnd + byteLength blank := hblank.offset
    refine ⟨front, w ++ blank, ?_, rfl, ?_, fun source₂ front₂ v' d hsource₂ hfront₂ => ?_⟩
    · rw [hchars, hcs, hrest, List.append_assoc]
    · rw [hoffset, hplace, byteLength_append, byteLength_append, Nat.add_assoc]
    · rw [List.append_assoc] at hsource₂
      rw [hstop] at htrivia
      have halongside : Alongside c'.rest (blank ++ '}' :: v') :=
        ⟨blank, '}' :: rest, '}' :: v', hrest, rfl, Token.blunt_cons rfl, Token.blunt_cons rfl⟩
      have htwin₂ : Twin d [] (.scan (cs.length + 1) [] ⟨cs, byteLength front⟩)
          (.scan ((w ++ (blank ++ '}' :: v')).length + 1) [] ⟨w ++ (blank ++ '}' :: v'), byteLength front + d⟩) := by
        refine htwin d _ halongside (fun m hm => ?_) _ (Nat.lt_succ_self _)
        rw [hstate]
        exact twin_of_brace hrest htrivia hm
      obtain ⟨-, -, state₂, hrun₂, hlast⟩ := run_twin hrun htwin₂
      have hstream := Stream.ofSource_append hsource₂
      rw [hfront₂] at hstream
      rw [exprAt, hstream, hrun₂]
      simp only [hlast]
  · cases hparsed

/-- The text behind a closing brace does not matter for the expression in front of the brace: any other text in its place
leaves the expression and its end as they are. -/
theorem exprAt_upTo_brace {source : Source} {start stop q : Nat} {e : Expr} {behind rest : List Char} {newline : Bool}
    (hparsed : source.exprAt start = .ok ⟨e, stop⟩) (hbehind : dropBytes? stop source.chars = some behind)
    (htrivia : Token.skipTrivia .code stop false behind = .ok (newline, ⟨'}' :: rest, q⟩)) (r : List Char) :
    ∃ upTo, takeBytes? (q + 1) source.chars = some upTo ∧ Source.exprAt ⟨upTo ++ r⟩ start = .ok ⟨e, stop⟩ := by
  obtain ⟨front, text, hchars, hfront, hq, hagain⟩ := exprAt_alongside hparsed hbehind htrivia
  have hsplit : source.chars = (front ++ text ++ ['}']) ++ rest := by simp [hchars]
  have hlength : q + 1 = byteLength (front ++ text ++ ['}']) := by
    rw [byteLength_append, byteLength_append, hfront, hq]
    rfl
  refine ⟨front ++ text ++ ['}'], by rw [hlength, hsplit, takeBytes?_append], ?_⟩
  have hsame := hagain ⟨front ++ text ++ ['}'] ++ r⟩ front r 0 (by simp) hfront
  rwa [Expr.moved_zero] at hsame

/-- A sum in parentheses is read in front of the brace that follows a comment, with whatever is behind this brace. -/
theorem sum_upTo_brace : ∃ e, (Source.ofString " (net + tax) /* \x7d */ \x7d type").exprAt 1 = .ok ⟨e, 12⟩ ∧
    dropBytes? 12 (Source.ofString " (net + tax) /* \x7d */ \x7d type").chars = some " /* \x7d */ \x7d type".toList ∧
    Token.skipTrivia .code 12 false " /* \x7d */ \x7d type".toList = .ok (false, ⟨'}' :: " type".toList, 21⟩) ∧
    ∀ r, ∃ upTo, takeBytes? (21 + 1) (Source.ofString " (net + tax) /* \x7d */ \x7d type").chars = some upTo ∧
      Source.exprAt ⟨upTo ++ r⟩ 1 = .ok ⟨e, 12⟩ := by
  have hstop : (((Source.ofString " (net + tax) /* \x7d */ \x7d type").exprAt 1).toOption.any (·.stop == 12)) = true := by
    decide +kernel
  cases hparsed : (Source.ofString " (net + tax) /* \x7d */ \x7d type").exprAt 1 with
  | error fault =>
      rw [hparsed] at hstop
      cases hstop
  | ok parsed =>
      obtain ⟨e, stop⟩ := parsed
      rw [hparsed] at hstop
      obtain rfl : stop = 12 := eq_of_beq hstop
      have hbehind : dropBytes? 12 (Source.ofString " (net + tax) /* \x7d */ \x7d type").chars =
          some " /* \x7d */ \x7d type".toList := by decide +kernel
      have htrivia : Token.skipTrivia .code 12 false " /* \x7d */ \x7d type".toList =
          .ok (false, ⟨'}' :: " type".toList, 21⟩) := by rfl
      exact ⟨e, rfl, hbehind, htrivia, exprAt_upTo_brace hparsed hbehind htrivia⟩

end Source
end FieldScript
