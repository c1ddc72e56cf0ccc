import FieldScript.Composite.Layout
import FieldScript.Proofs.Parse.Spans
import FieldScript.Proofs.Schema.Places

/-!
# How a walk over a composite source goes

A walk that succeeds cuts its source into pieces: tokens outside of bodies, and bodies with their braces. `Course` says
once what the walk can do at a place, and which text it passes there; everything that is known of an extraction is
derived from it.

* `Course`: one piece after another, up to the end of the source.
* `body_form`: a body is an expression behind an opening brace, with a closing brace as the next token.
* `extract_course`: an extraction is made of the bodies among the pieces of a course.
-/

namespace FieldScript

open Text
open Schema (Cursor Lexes)

/-! ## Places in a source -/

/-- A cursor that stands in a source behind a text. -/
structure Schema.Cursor.Stands (source : Source) (c : Cursor) (front : List Char) : Prop where
  chars : source.chars = front ++ c.rest
  offset : c.offset = byteLength front

namespace Schema.Cursor.Stands

variable {source : Source} {c next : Cursor} {front w blank : List Char} {t : Schema.Token}

theorem start (source : Source) : Cursor.Stands source (Cursor.ofOffset source 0) [] := by
  have hcursor : Cursor.ofOffset source 0 = ⟨source.chars, 0⟩ := by simp [Cursor.ofOffset]
  rw [hcursor]
  exact ⟨rfl, rfl⟩

theorem size_eq (h : Cursor.Stands source c front) : source.size = c.offset + byteLength c.rest := by
  rw [Source.size, h.chars, byteLength_append, h.offset]

theorem length_le_size (h : Cursor.Stands source c front) : c.rest.length ≤ source.size := by
  have hlength : ∀ cs : List Char, cs.length ≤ byteLength cs := by
    intro cs
    induction cs with
    | nil => exact Nat.le_refl _
    | cons x cs ih =>
        have hsize := Char.utf8Size_pos x
        rw [List.length_cons, byteLength_cons]
        omega
  have hle := hlength c.rest
  rw [h.size_eq]
  omega

/-- The place behind a token. -/
theorem lexes (h : Cursor.Stands source c front) (hlex : Lexes c blank w t next) :
    Cursor.Stands source next (front ++ (blank ++ w)) := by
  constructor
  · rw [h.chars, hlex.rest, List.append_assoc, List.append_assoc]
  · rw [hlex.offset, h.offset, byteLength_append, byteLength_append, Nat.add_assoc]

/-- An offset in front of some text is one that the source can be cut at. -/
theorem ofOffset {n : Nat} (h : (Cursor.ofOffset source n).rest ≠ []) :
    (∃ front, Cursor.Stands source (Cursor.ofOffset source n) front) ∧ (Cursor.ofOffset source n).offset = n := by
  simp only [Cursor.ofOffset] at h ⊢
  cases hdrop : dropBytes? (min n source.size) source.chars with
  | none =>
      rw [hdrop] at h
      exact absurd rfl h
  | some rest =>
      obtain ⟨front, hfront, hlength⟩ := Token.exists_of_dropBytes? hdrop
      rw [hdrop] at h
      refine ⟨⟨front, hfront, hlength⟩, ?_⟩
      -- At the end of the source there would be no text left.
      have hpos : 0 < byteLength rest := by
        obtain ⟨x, rest', rfl⟩ := List.exists_cons_of_ne_nil h
        have hsize := Char.utf8Size_pos x
        rw [byteLength_cons]
        omega
      have hsize : source.size = byteLength front + byteLength rest := by
        rw [Source.size, hfront, byteLength_append]
      omega

end Schema.Cursor.Stands

namespace Extract

/-! ## Bodies -/

variable {source : Source} {c mid next after : Cursor} {front : List Char} {t : Schema.Token} {expr : Expr} {close : Span}

theorem of_mapError {ε ε' α : Type} {x : Except ε α} {f : ε → ε'} {a : α} (h : x.mapError f = .ok a) : x = .ok a := by
  cases x with
  | error fault => cases h
  | ok b =>
      cases h
      rfl

/-- The number of closing parentheses only grows. -/
theorem skipClosing_form {fuel n m : Nat} (h : skipClosing fuel n c = .ok (m, t, next)) :
    n ≤ m ∧ (m = n → Schema.scanToken c = .ok (t, next)) := by
  induction fuel generalizing n c with
  | zero =>
      obtain ⟨⟨t', next'⟩, hnext, h⟩ := Schema.exists_of_bind h
      cases h
      exact ⟨Nat.le_refl _, fun _ => of_mapError hnext⟩
  | succ fuel ih =>
      obtain ⟨⟨t', next'⟩, hnext, h⟩ := Schema.exists_of_bind h
      dsimp only at h
      split at h
      · obtain ⟨hle, -⟩ := ih h
        refine ⟨by omega, fun heq => ?_⟩
        omega
      · cases h
        exact ⟨Nat.le_refl _, fun _ => of_mapError hnext⟩

/-- A body that is read: an expression, and a closing brace as the first token behind it. -/
theorem body_form {start : Nat} (h : body source start = .ok (expr, close, after)) :
    ∃ stop t, source.exprAt start = .ok ⟨expr, stop⟩ ∧
      Schema.scanToken (Cursor.ofOffset source stop) = .ok (t, after) ∧ t.kind = .closeBrace ∧ t.span = close := by
  obtain ⟨⟨e, stop⟩, hparsed, h⟩ := Schema.exists_of_bind h
  obtain ⟨⟨surplus, t, c⟩, hclosing, h⟩ := Schema.exists_of_bind h
  dsimp only at h
  split at h
  · cases h
  · rename_i hsurplus
    split at h
    · rename_i hkind
      cases h
      exact ⟨stop, t, of_mapError hparsed, (skipClosing_form hclosing).2 (by omega), hkind, rfl⟩
    · cases h

/-- The text of a body that is read behind an opening brace. -/
structure Closes (source : Source) (mid : Cursor) (inner : List Char) (expr : Expr) (after : Cursor) : Prop where
  rest : mid.rest = inner ++ '}' :: after.rest
  offset : after.offset = mid.offset + byteLength inner + 1
  parsed : ∃ stop, source.exprAt mid.offset = .ok ⟨expr, stop⟩
  within : expr.span.Within mid.offset (mid.offset + byteLength inner)

theorem Closes.stands {inner : List Char} (h : Closes source mid inner expr after) (hmid : mid.Stands source front) :
    after.Stands source (front ++ (inner ++ ['}'])) := by
  refine ⟨?_, ?_⟩
  · rw [hmid.chars, h.rest]
    simp
  · rw [h.offset, hmid.offset]
    simp [Nat.add_assoc]
    rfl

theorem body_closes (hmid : mid.Stands source front) (h : body source mid.offset = .ok (expr, close, after)) :
    ∃ inner, Closes source mid inner expr after ∧ close.stop = after.offset ∧ mid.offset ≤ close.start := by
  obtain ⟨stop, t, hparsed, hscan, hkind, rfl⟩ := body_form h
  have hend : t.kind ≠ .eof := by rw [hkind]; nofun
  obtain ⟨blank, w, hlex⟩ := Schema.scanToken_lexes hscan hend
  obtain rfl : w = ['}'] := hlex.spells.char '}' (by rw [hkind]; rfl)
  have hne : (Cursor.ofOffset source stop).rest ≠ [] := by
    rw [hlex.rest]
    simp
  obtain ⟨⟨front', hfront'⟩, hstop⟩ := Schema.Cursor.Stands.ofOffset hne
  have hwithin : expr.span.Within mid.offset stop := Parse.exprAt_within hparsed
  have hle : byteLength front ≤ byteLength front' := by
    have hlt := hwithin.lt
    rw [← hmid.offset, ← hfront'.offset, hstop]
    omega
  obtain ⟨m, rfl, hm⟩ := Text.exists_between (hmid.chars.symm.trans hfront'.chars) hle
  have hlength : stop = mid.offset + byteLength m := by
    rw [← hstop, hfront'.offset, byteLength_append, hmid.offset]
  have hbrace : byteLength ['}'] = 1 := rfl
  have hoffset := hlex.offset
  rw [hstop, hlength, hbrace] at hoffset
  refine ⟨m ++ blank, ⟨?_, ?_, ⟨stop, hparsed⟩, ?_⟩, ?_, ?_⟩
  · rw [hm, hlex.rest]
    simp
  · rw [hoffset, byteLength_append]
    omega
  · refine hwithin.mono (Nat.le_refl _) ?_
    rw [hlength, byteLength_append]
    omega
  · rw [hlex.span, hlex.offset]
  · rw [hlex.span, hstop]
    show mid.offset ≤ stop + byteLength blank
    omega

/-! ## Courses -/

/-- A piece of a composite source: a token outside of bodies or a body, with what is skipped in front of it. -/
inductive Piece where
  | token (blank word : List Char) (t : Schema.Token)
  | body (blank text : List Char) (region : Region) (expr : Expr)

namespace Piece

/-- What a piece leaves once the bodies are cut out. -/
def kept : Piece → List Char
  | .token blank word _ => blank ++ word
  | .body blank _ _ _ => blank

/-- The token of a piece that is no body. -/
def token? : Piece → Option Schema.Token
  | .token _ _ t => some t
  | .body .. => none

/-- The region and the expression of a piece that is a body. -/
def body? : Piece → Option (Region × Expr)
  | .token .. => none
  | .body _ _ region expr => some (region, expr)

end Piece

/-- The tokens among pieces. -/
def tokensOf (ps : List Piece) : List Schema.Token := ps.filterMap Piece.token?

/-- The bodies among pieces. -/
def bodiesOf (ps : List Piece) : List (Region × Expr) := ps.filterMap Piece.body?

/-- Whether a token opens the body of a field. -/
def State.Opens (s : State) (t : Schema.Token) : Prop := s.container.isSome ∧ t.kind = .openBrace ∧ s.depth = 0

/-- What a body does to the state. -/
def State.take (s : State) (region : Region) (expr : Expr) : State := { s with found := s.found.add region expr }

/-- A walk from a place and a state on that comes to the end of the source, and the pieces that it passes. -/
inductive Course (source : Source) : Cursor → State → List Piece → Prop
  | done {c : Cursor} {s : State} (hend : ∀ o, (Schema.skipIgnored false o c.rest).rest = []) : Course source c s []
  | token {c next : Cursor} {s : State} {blank word : List Char} {t : Schema.Token} {ps : List Piece}
      (hlex : Lexes c blank word t next) (hopens : ¬ s.Opens t) (hrest : Course source next (s.pass t) ps) :
      Course source c s (.token blank word t :: ps)
  | body {c mid after : Cursor} {s : State} {blank inner : List Char} {t : Schema.Token} {container : Container}
      {field : String} {expr : Expr} {ps : List Piece} {region : Region}
      (hlex : Lexes c blank ['{'] t mid) (hcontainer : s.container = some container) (hdepth : s.depth = 0)
      (hfield : fieldName? ⟨false, false, false⟩ s.before = some field) (hcloses : Closes source mid inner expr after)
      (hregion : region = ⟨container, field, ⟨c.offset + byteLength blank, after.offset⟩⟩)
      (hrest : Course source after (s.take region expr) ps) :
      Course source c s (.body blank ('{' :: (inner ++ ['}'])) region expr :: ps)

theorem State.pass_found (s : State) (t : Schema.Token) : (s.pass t).found = s.found := by
  unfold State.pass
  dsimp only
  split
  · split <;> rfl
  · rfl
  · rfl
  · rfl
  · rfl

/-- Every walk that succeeds is a course, and finds the bodies of its pieces. -/
theorem walk_course {fuel : Nat} {s : State} {x : Extraction} (hc : c.Stands source front) (hfuel : c.rest.length < fuel)
    (h : walk source fuel c s = .ok x) :
    ∃ ps, Course source c s ps ∧ x = (bodiesOf ps).foldl (fun x b => x.add b.1 b.2) s.found := by
  induction fuel generalizing c s front with
  | zero => omega
  | succ fuel ih =>
      obtain ⟨⟨t, next⟩, hnext, h⟩ := Schema.exists_of_bind h
      have hscan := of_mapError hnext
      dsimp only at h
      split at h
      · rename_i hend
        cases h
        exact ⟨[], .done (Schema.scanToken_end hscan hend), rfl⟩
      · rename_i hend
        obtain ⟨blank, w, hlex⟩ := Schema.scanToken_lexes hscan hend
        have hshorter := hlex.length_lt
        -- A token that opens no body is passed.
        have hpass : ¬ s.Opens t → walk source fuel next (s.pass t) = .ok x → ∃ ps, Course source c s ps ∧
            x = (bodiesOf ps).foldl (fun x b => x.add b.1 b.2) s.found := by
          intro hopens hwalk
          obtain ⟨ps, hcourse, hx⟩ := ih (hc.lexes hlex) (by omega) hwalk
          rw [State.pass_found] at hx
          exact ⟨.token blank w t :: ps, .token hlex hopens hcourse, hx⟩
        split at h
        · rename_i container hcontainer
          split at h
          · rename_i hopens
            simp only [Bool.and_eq_true, decide_eq_true_eq] at hopens
            split at h
            · cases h
            · rename_i field hfield
              obtain ⟨⟨expr, close, after⟩, hbody, h⟩ := Schema.exists_of_bind h
              obtain rfl : w = ['{'] := hlex.spells.char '{' (by rw [hopens.1]; rfl)
              have hmid := hc.lexes hlex
              have hspan : t.span = ⟨c.offset + byteLength blank, next.offset⟩ := by rw [hlex.span, hlex.offset]
              rw [hspan] at hbody
              obtain ⟨inner, hcloses, hstop, hstart⟩ := body_closes hmid hbody
              have hshorter' : after.rest.length < next.rest.length := by
                rw [hcloses.rest, List.length_append, List.length_cons]
                omega
              -- The closing brace ends the region.
              have hregion : t.span.merge close = ⟨c.offset + byteLength blank, after.offset⟩ := by
                have hbefore := hlex.offset
                have hbehind := hcloses.offset
                have hmin : min (c.offset + byteLength blank) close.start = c.offset + byteLength blank := by omega
                have hmax : max next.offset after.offset = after.offset := by omega
                rw [hspan, Span.merge, hstop, hmin, hmax]
              obtain ⟨ps, hcourse, hx⟩ := ih (hcloses.stands hmid) (by omega) h
              rw [hregion] at hcourse hx
              exact ⟨.body blank _ _ expr :: ps, .body hlex hcontainer hopens.2 hfield hcloses rfl hcourse, hx⟩
          · rename_i hopens
            refine hpass ?_ h
            rintro ⟨-, hkind, hdepth⟩
            simp [hkind, hdepth] at hopens
        · rename_i hcontainer
          refine hpass ?_ h
          rintro ⟨hsome, -⟩
          rw [hcontainer] at hsome
          cases hsome

/-- The state in which the walk starts. -/
def State.first : State := ⟨[], none, 0, .empty⟩

/-- An extraction that succeeds is a course over the whole source. -/
theorem extract_course {x : Extraction} (h : extract source = .ok x) :
    ∃ ps, Course source (Cursor.ofOffset source 0) .first ps ∧
      x = (bodiesOf ps).foldl (fun x b => x.add b.1 b.2) .empty := by
  have hstart := Schema.Cursor.Stands.start source
  exact walk_course hstart (Nat.lt_succ_of_le hstart.length_le_size) (of_mapError h)

/-- An extraction of which something is known by running it. -/
theorem exists_of_run (source : Source) {α : Type} {f : Extraction → α} {a : α} (h : (extract source).toOption.map f = some a) :
    ∃ x, extract source = .ok x ∧ f x = a := by
  cases hextract : extract source with
  | error d =>
      rw [hextract] at h
      cases h
  | ok x =>
      rw [hextract] at h
      exact ⟨x, rfl, Option.some.inj h⟩

end Extract
end FieldScript
