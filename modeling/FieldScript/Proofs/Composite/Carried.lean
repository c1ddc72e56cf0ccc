import FieldScript.Proofs.Composite.Excision
import FieldScript.Proofs.Parse.Fenced

/-!
# A source as a part of another one

A source stands in a longer one behind `d` bytes and in front of a text that no token of a schema runs into. What is read
at a place of the part is read in the same way at the place of the whole that is `d` bytes further behind.

* `Lexes.carried`: the tokens of the schema.
* `skipTrivia_of_ignored`: what is skipped between an expression and a closing brace of the schema is skipped by the
  expression language as well. The expression has been read up to a token that is no comma, so that there are neither
  commas nor comments.
* `body_carried`: the bodies. They end in front of a closing brace, and `Source.exprAt_alongside` tells that an
  expression there is read in the same way whatever is around.
-/

namespace FieldScript

open Text
open Schema (Cursor Lexes)
open Token (Halts halts_nil halts_cons)

/-! ## Places of a part -/

/-- A part of a source, with `d` bytes in front of it and `post` behind. -/
structure Source.IsPart (part whole : Source) (d : Nat) (post : List Char) : Prop where
  chars : ∃ pre, whole.chars = pre ++ (part.chars ++ post) ∧ byteLength pre = d
  apart : ∀ kind : Schema.TokenKind, Halts kind.runsInto post

theorem Token.Halts.append {p : Char → Bool} {a b : List Char} (ha : Halts p a) (hb : Halts p b) : Halts p (a ++ b) := by
  cases a with
  | nil => exact hb
  | cons x a => exact halts_cons.2 (halts_cons.1 ha)

namespace Schema

variable {d o : Nat} {post blank w front : List Char} {c next : Cursor} {t : Token} {part whole : Source}

/-- A token that stands further behind. -/
def Token.moved (d : Nat) (t : Token) : Token := { t with span := t.span.moved d }

/-- The place of a whole at which a place of a part stands. -/
def Cursor.carried (d : Nat) (post : List Char) (c : Cursor) : Cursor := ⟨c.rest ++ post, c.offset + d⟩

@[simp] theorem Token.moved_kind (d : Nat) (t : Token) : (t.moved d).kind = t.kind := rfl

@[simp] theorem Token.moved_zero (t : Token) : t.moved 0 = t := rfl

@[simp] theorem Token.moved_name? (d : Nat) (t : Token) : (t.moved d).name? = t.name? := rfl

theorem Cursor.Stands.carried (h : c.Stands part front) (hpart : part.IsPart whole d post) :
    ∃ front', (c.carried d post).Stands whole front' := by
  obtain ⟨⟨pre, hchars, rfl⟩, -⟩ := hpart
  refine ⟨pre ++ front, ?_, ?_⟩
  · rw [hchars, h.chars, Cursor.carried, List.append_assoc, List.append_assoc]
  · rw [Cursor.carried, h.offset, byteLength_append, Nat.add_comm]

/-- A token of a part is a token of the whole. -/
theorem Lexes.carried (h : Lexes c blank w t next) (hpost : Halts t.kind.runsInto post) :
    Lexes (c.carried d post) blank w (t.moved d) (next.carried d post) where
  ignored := h.ignored
  spells := h.spells
  solid := h.solid
  rest := by rw [Cursor.carried, Cursor.carried, h.rest, List.append_assoc, List.append_assoc]
  span := by
    show Span.moved d t.span = _
    rw [h.span, Span.moved, Cursor.carried]
    simp only [Nat.add_right_comm]
  offset := by
    show next.offset + d = _
    rw [h.offset, Cursor.carried]
    simp only [Nat.add_right_comm]
  apart := h.apart.append hpost

end Schema

/-! ## Between an expression and a closing brace -/

theorem Text.isLetter_byteOrderMark : isLetter '\uFEFF' = false := by
  have hwide : ¬ '\uFEFF'.toNat < 0x80 := by decide
  rw [isLetter, if_neg hwide, Token.inBlocks_toList]
  decide +kernel

namespace Token

variable {x : Char} {blank v : List Char} {o : Nat} {newline newline' : Bool} {first next : Cursor} {kind : Kind}
  {D : Depths}

theorem leadingPunct?_unread (hx : x = '#' ∨ x = '\uFEFF') (cs : List Char) : leadingPunct? (x :: cs) = none := by
  rcases hx with rfl | rfl <;> rfl

/-- Characters that a schema skips and an expression cannot go on with. -/
theorem scanKind_unread (hx : x = '#' ∨ x = '\uFEFF') (cs : List Char) (o : Nat) :
    scanKind [] ⟨x :: cs, o⟩ = .error ⟨.unexpectedCharacter x, ⟨o, o + x.utf8Size⟩⟩ := by
  have hplain : (x = '"' || x = '\'') = false ∧ x.toNat ≠ 96 ∧ isDigit x = false ∧ x ≠ '.' ∧ x ≠ '}' := by
    rcases hx with rfl | rfl <;> decide
  have hword : (isWordStart x || (0x80 ≤ x.toNat && isLetter x)) = false := by
    rcases hx with rfl | rfl
    · decide
    · rw [isLetter_byteOrderMark, Bool.and_false]
      decide
  obtain ⟨hquote, htick, hdigit, hdot, hbrace⟩ := hplain
  simp only [scanKind, hquote, htick, hdigit, hword, leadingPunct?_unread hx, decide_eq_false hdot,
    decide_eq_false hbrace, Bool.false_and, Bool.false_eq_true, if_false]

theorem scanKind_comma (cs : List Char) (o : Nat) : scanKind [] ⟨',' :: cs, o⟩ = .ok (.punct .comma, [], ⟨cs, o + 1⟩) :=
  (Lexeme.mark_scans (p := .comma) (leadingPunct?_tight rfl cs) nofun nofun nofun).kind o

/-- What is skipped in front of a closing brace of a schema is skipped in front of the next token of an expression, if
there is one that is no comma. -/
theorem skipTrivia_of_ignored (htrivia : skipTrivia .code o newline (blank ++ '}' :: v) = .ok (newline', first))
    (hkind : scanKind [] first = .ok (kind, D, next)) (hcomma : kind ≠ .punct .comma)
    (hignored : Schema.skipIgnored false o (blank ++ '}' :: v) = ⟨'}' :: v, o + byteLength blank⟩) :
    first = ⟨'}' :: v, o + byteLength blank⟩ := by
  induction blank generalizing o newline with
  | nil =>
      have hbrace : skipTrivia .code o newline ('}' :: v) = .ok (newline, ⟨'}' :: v, o⟩) :=
        skipTrivia_of_solid (fun hslash => absurd hslash (by decide)) (by decide) rfl rfl o newline
      rw [List.nil_append, hbrace] at htrivia
      cases htrivia
      rfl
  | cons x blank ih =>
      rw [List.cons_append] at htrivia hignored
      -- A character that neither language skips would be the closing brace.
      by_cases hsolid : Schema.isIgnored x = false
      · rw [Schema.skipIgnored_solid hsolid] at hignored
        have hlength := congrArg (fun c => c.rest.length) hignored
        simp only [List.length_cons, List.length_append] at hlength
        omega
      -- A comma would be the next token, and the others start none.
      by_cases hstays : x = '#' ∨ x = ',' ∨ x = '\uFEFF'
      · have hfirst : skipTrivia .code o newline (x :: (blank ++ '}' :: v)) = .ok (newline, ⟨x :: (blank ++ '}' :: v), o⟩) := by
          rcases hstays with rfl | rfl | rfl <;>
            exact skipTrivia_of_solid (fun hslash => absurd hslash (by decide)) (by decide) rfl rfl o newline
        rw [hfirst] at htrivia
        cases htrivia
        rcases hstays with hx | rfl | hx
        · rw [scanKind_unread (.inl hx)] at hkind
          cases hkind
        · rw [scanKind_comma] at hkind
          cases hkind
          exact absurd rfl hcomma
        · rw [scanKind_unread (.inr hx)] at hkind
          cases hkind
      · have hx : x = ' ' ∨ x = '\t' ∨ x = '\n' ∨ x = '\r' := by
          simp only [Schema.isIgnored, Bool.or_eq_false_iff, decide_eq_false_iff_not] at hsolid
          tauto
        have hsize : x.utf8Size = 1 := by rcases hx with rfl | rfl | rfl | rfl <;> rfl
        have hskips : ∃ newline'', skipTrivia .code o newline (x :: (blank ++ '}' :: v)) =
            skipTrivia .code (o + 1) newline'' (blank ++ '}' :: v) := by
          rw [skipTrivia_code_cons (by rintro rfl; simp at hx)]
          rcases hx with rfl | rfl | rfl | rfl
          · exact ⟨newline, rfl⟩
          · exact ⟨newline, rfl⟩
          · exact ⟨true, rfl⟩
          · exact ⟨newline, rfl⟩
        obtain ⟨newline'', hskips⟩ := hskips
        have hskips' : Schema.skipIgnored false o (x :: (blank ++ '}' :: v)) =
            Schema.skipIgnored false (o + 1) (blank ++ '}' :: v) := by
          rcases hx with rfl | rfl | rfl | rfl <;> rfl
        rw [hskips] at htrivia
        rw [hskips', byteLength_cons, hsize, ← Nat.add_assoc] at hignored
        rw [byteLength_cons, hsize, ← Nat.add_assoc]
        exact ih htrivia hignored

theorem exists_of_scanToken {c : Cursor} {t : Token} (h : scanToken [] c = .ok (t, D, next)) :
    ∃ newline first, skipTrivia .code c.offset false c.rest = .ok (newline, first) ∧
      scanKind [] first = .ok (t.kind, D, next) := by
  unfold scanToken at h
  split at h
  · cases h
  · rename_i newline first htrivia
    split at h
    · cases h
    · rename_i hkind
      cases h
      exact ⟨newline, first, htrivia, hkind⟩

end Token

namespace Extract

/-! ## Bodies -/

variable {part whole : Source} {d start : Nat} {post : List Char} {expr : Expr} {close : Span} {c after : Cursor}
  {t : Schema.Token}

theorem skipClosing_of_ne (h : Schema.scanToken c = .ok (t, after)) (hkind : t.kind ≠ .closeParen) (fuel n : Nat) :
    skipClosing fuel n c = .ok (n, t, after) := by
  have hnext : next c = .ok (t, after) := by
    rw [next, h]
    rfl
  cases fuel with
  | zero =>
      rw [skipClosing, hnext]
      rfl
  | succ fuel =>
      rw [skipClosing, hnext]
      exact if_neg hkind

/-- A body of a part is a body of the whole. -/
theorem body_carried (hpart : part.IsPart whole d post) (h : body part start = .ok (expr, close, after)) :
    body whole (start + d) = .ok (expr.moved d, close.moved d, after.carried d post) := by
  obtain ⟨stop, t, hparsed, hscan, hkind, rfl⟩ := body_form h
  obtain ⟨blank, w, hlex⟩ := Schema.scanToken_lexes hscan fun heof => by cases hkind.symm.trans heof
  obtain rfl : w = ['}'] := hlex.spells.char '}' (by rw [hkind]; rfl)
  have hrest : (Cursor.ofOffset part stop).rest = blank ++ '}' :: after.rest := hlex.rest
  obtain ⟨⟨front, hstands⟩, hstop⟩ := Schema.Cursor.Stands.ofOffset (by rw [hrest]; simp)
  -- The expression language gets to the same brace.
  obtain ⟨behind, t', D, next, hbehind, hscan', hcomma⟩ := Source.exprAt_next hparsed
  have hfront : stop = byteLength front := hstop.symm.trans hstands.offset
  obtain rfl : behind = blank ++ '}' :: after.rest := by
    rw [hstands.chars, hrest, hfront, dropBytes?_append] at hbehind
    exact (Option.some.inj hbehind).symm
  obtain ⟨newline, first, htrivia, hkind'⟩ := Token.exists_of_scanToken hscan'
  have hpunct : t'.kind ≠ .punct .comma := by
    intro heq
    simp [Token.isPunct, heq] at hcomma
  have hignored := (hlex.ignored stop ('}' :: after.rest)).trans (Schema.skipIgnored_solid rfl _)
  obtain rfl := Token.skipTrivia_of_ignored htrivia hkind' hpunct hignored
  -- In front of this brace the same expression is read in the whole.
  obtain ⟨front', text, hchars, hfront', -, hagain⟩ := Source.exprAt_alongside hparsed hbehind htrivia
  have hparsed' : whole.exprAt (start + d) = .ok ⟨expr.moved d, stop + d⟩ := by
    obtain ⟨⟨pre, hwhole, hpre⟩, -⟩ := hpart
    refine hagain whole (pre ++ front') (after.rest ++ post) d ?_ ?_
    · rw [hwhole, hchars]
      simp
    · rw [byteLength_append, hpre, hfront', Nat.add_comm]
  -- The schema goes on at the same place, with the closing brace.
  have hplace : Cursor.ofOffset whole (stop + d) = (Cursor.ofOffset part stop).carried d post := by
    obtain ⟨front', hstands'⟩ := hstands.carried hpart
    have hoffset : ((Cursor.ofOffset part stop).carried d post).offset = stop + d := congrArg (· + d) hstop
    rw [← hoffset]
    exact hstands'.ofOffset_eq
  have hclose : Schema.scanToken (Cursor.ofOffset whole (stop + d)) = .ok (t.moved d, after.carried d post) := by
    rw [hplace]
    exact (hlex.carried (hpart.apart _)).scan
  have hskip := skipClosing_of_ne hclose (fun hparen => by cases hkind.symm.trans hparen) whole.size 0
  simp only [body, hparsed', Except.mapError, bind, Except.bind, hskip, Nat.lt_irrefl, if_false]
  exact if_pos hkind

end Extract

/-! ## Comments in front of a closing brace

What is skipped there is what the schema skips, which is less than what the expression language skips in front of the
expression. -/

/-- A source with one body. -/
def plainBody : Source := .ofString "type Query \x7b a: Int \x7b 1 \x7d \x7d"

/-- The same source with a comment in front of the closing brace of the body. -/
def commentedBody : Source := .ofString "type Query \x7b a: Int \x7b 1 /* c */\x7d \x7d"

/-- A comment in front of the closing brace of a body is no token of the schema. -/
theorem commentedBody_rejected :
    ∃ x front back, extract plainBody = .ok x ∧ x.regions = [⟨.query, "a", ⟨20, 25⟩⟩] ∧
      (plainBody.exprAt 21).toOption.map (·.stop) = some 23 ∧ plainBody.chars = front ++ back ∧ byteLength front = 24 ∧
      Token.Skipped "/* c */".toList ∧ commentedBody.chars = front ++ ("/* c */".toList ++ back) ∧
      extract commentedBody = .error (.inComposite .schemaSyntax "Syntax Error: Unexpected character '/'."
        (commentedBody.location ⟨24, 25⟩)) := by
  obtain ⟨x, hextract, hregions⟩ := Extract.exists_of_run plainBody (f := Extraction.regions)
    (a := [⟨.query, "a", ⟨20, 25⟩⟩]) (by decide +kernel)
  refine ⟨x, "type Query \x7b a: Int \x7b 1 ".toList, "\x7d \x7d".toList, hextract, hregions, by decide +kernel, ?_, ?_,
    Token.skipped_blockComment, ?_, ?_⟩
  · decide +kernel
  · decide +kernel
  · decide +kernel
  · have hfault : (match extract commentedBody with
      | .error d => some d
      | .ok _ => none) = some (.inComposite .schemaSyntax "Syntax Error: Unexpected character '/'."
        (commentedBody.location ⟨24, 25⟩)) := by decide +kernel
    cases hextract : extract commentedBody with
    | error d =>
        rw [hextract] at hfault
        rw [Option.some.inj hfault]
    | ok x =>
        rw [hextract] at hfault
        cases hfault

end FieldScript
