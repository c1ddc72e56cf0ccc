import FieldScript.Proofs.Schema.Faults

/-!
# Reading a schema to its end

A lexer that starts at the beginning of a text, is called again and again and set to places of the text in between,
stays at places of the text. Each call that finds a token gets further, so that the end is reached, or a fault.

The exception is a text in quotes that breaks off behind a backslash: there the position ends up behind the end of the
text (`brokenText_overruns`).

* `Lexer.Reached`: the lexers that such calls lead to.
* `Lexer.Reads`: what a call does, and how many of them there can be.
* `Lexer.reached_reads`: the calls of every lexer that is reached.
-/

namespace FieldScript.Schema

open FieldScript.Text

/-! ## Tokens -/

section

variable {c next : Cursor} {t : Token}

/-- A token starts behind the cursor and ends at the next one. Only the end of the text takes no characters. -/
theorem scanToken_moves (h : scanToken c = .ok (t, next)) :
    ∃ w, Moves c w next ∧ (t.kind ≠ .eof → w ≠ []) ∧ c.offset ≤ t.span.start ∧ t.span.start ≤ t.span.stop ∧
      t.span.stop = next.offset := by
  obtain ⟨first, hfirst, hkind, hspan⟩ := exists_of_scanToken h
  obtain ⟨blank, hblank, -, -⟩ := skipIgnored_form false c.offset c.rest
  rw [hfirst] at hblank
  have hstart : c.offset ≤ first.offset := hblank.offset_le
  by_cases hne : first.rest = []
  · obtain ⟨cs, o⟩ := first
    cases hne
    rw [scanKind_nil] at hkind
    obtain ⟨heof, rfl⟩ := Prod.mk.inj (Except.ok.inj hkind)
    exact ⟨blank, hblank, fun hne => absurd heof.symm hne, hspan ▸ hstart, hspan ▸ Nat.le_refl _, by rw [hspan]⟩
  · obtain ⟨w, hw, hspells, -⟩ := scanKind_spells hkind hne
    refine ⟨blank ++ w, hblank.trans hw, fun _ => List.append_ne_nil_of_right_ne_nil _ hspells.ne_nil, ?_⟩
    exact ⟨hspan ▸ hstart, hspan ▸ hw.offset_le, by rw [hspan]⟩

end

namespace Lexer

variable {source : Source} {l : Lexer} {front behind w : List Char} {t : Token} {f : TokenFault}

/-! ## Places of a text -/

/-- The position parts the text in two. -/
structure Parts (l : Lexer) (front behind : List Char) : Prop where
  chars : l.source.chars = front ++ behind
  position : l.position = byteLength front

/-- The position is a boundary between two characters, or one of the ends of the text. -/
def OnBoundary (l : Lexer) : Prop := ∃ front behind, l.Parts front behind

namespace Parts

theorem size_eq (h : l.Parts front behind) : l.source.size = l.position + byteLength behind := by
  rw [Source.size, h.chars, byteLength_append, h.position]

theorem cursor_eq (h : l.Parts front behind) : l.cursor = ⟨behind, l.position⟩ := by
  have hle : l.position ≤ l.source.size := h.size_eq ▸ Nat.le_add_right _ _
  have hdrop : dropBytes? l.position l.source.chars = some behind := by
    rw [h.position, h.chars, dropBytes?_append]
  simp only [cursor, Cursor.ofOffset, Nat.min_eq_left hle, hdrop, Option.getD_some]

/-- The position behind what a scan has passed. -/
theorem moved {rest : List Char} {o : Nat} (h : l.Parts front behind) (hw : Moves l.cursor w ⟨rest, o⟩) :
    Parts { l with position := o } (front ++ w) rest := by
  rw [h.cursor_eq] at hw
  refine ⟨?_, ?_⟩
  · rw [List.append_assoc, h.chars, ← hw.rest]
  · rw [byteLength_append, ← h.position, ← hw.offset]

end Parts

theorem OnBoundary.position_le (h : l.OnBoundary) : l.position ≤ l.source.size := by
  obtain ⟨front, behind, h⟩ := h
  exact h.size_eq ▸ Nat.le_add_right _ _

/-! ## One call -/

theorem next_eq_ok {c : Cursor} (h : scanToken l.cursor = .ok (t, c)) :
    l.next = (.ok t, { l with position := c.offset }) := by
  rw [next, h]

theorem next_eq_error (h : scanToken l.cursor = .error f) : l.next = (.error f, { l with position := f.resume }) := by
  rw [next, h]

@[simp] theorem next_source (l : Lexer) : l.next.2.source = l.source := by
  cases h : scanToken l.cursor with
  | error f => rw [next_eq_error h]
  | ok found => rw [next_eq_ok h]

/-- A call that finds a token. -/
structure Advances (l : Lexer) (t : Token) : Prop where
  onBoundary : l.next.2.OnBoundary
  starts : l.position ≤ t.span.start
  ordered : t.span.start ≤ t.span.stop
  stops : t.span.stop = l.next.2.position
  progress : t.kind ≠ .eof → l.position < l.next.2.position

/-- A call that finds a fault, with a place to report. -/
structure Faults (l : Lexer) (f : TokenFault) : Prop where
  onBoundary : l.next.2.OnBoundary
  starts : l.position ≤ f.span.start
  ordered : f.span.start ≤ f.span.stop
  /-- A digit may be missing right behind the end. -/
  within : f.span.stop ≤ l.source.size + 1

theorem advances_of_next (h : l.OnBoundary) (ht : l.next.1 = .ok t) : l.Advances t := by
  obtain ⟨front, behind, h⟩ := h
  cases hscan : scanToken l.cursor with
  | error f =>
      rw [next_eq_error hscan] at ht
      cases ht
  | ok found =>
      obtain ⟨t', c⟩ := found
      have hnext := next_eq_ok hscan
      rw [hnext] at ht
      cases ht
      obtain ⟨w, hmoves, hne, hstart, hordered, hstop⟩ := scanToken_moves hscan
      have hoffset : c.offset = l.position + byteLength w := by
        rw [hmoves.offset, h.cursor_eq]
      refine ⟨?_, ?_, hordered, ?_, fun hkind => ?_⟩
      · rw [hnext]
        exact ⟨_, _, h.moved hmoves⟩
      · rwa [h.cursor_eq] at hstart
      · rw [hnext, hstop]
      · rw [hnext]
        show l.position < c.offset
        have hpos := byteLength_pos (hne hkind)
        omega

theorem faults_of_next (h : l.OnBoundary) (hf : l.next.1 = .error f) :
    l.Faults f ∧ f.cause ≠ .overrun ∨
      f.cause = .overrun ∧ l.next.2.position = l.source.size + 1 ∧ l.cursor.Breaks := by
  obtain ⟨front, behind, h⟩ := h
  cases hscan : scanToken l.cursor with
  | ok found =>
      rw [next_eq_ok hscan] at hf
      cases hf
  | error f' =>
      have hnext := next_eq_error hscan
      rw [hnext] at hf
      cases hf
      rw [hnext]
      obtain hhalted | ⟨hover, hbreaks⟩ := scanToken_fault hscan
      · refine .inl ⟨⟨?_, ?_, hhalted.ordered, ?_⟩, hhalted.cause⟩
        · obtain ⟨passed, rest, hmoves⟩ := hhalted.resumes
          rw [hnext]
          exact ⟨_, _, h.moved hmoves⟩
        · have hstart := hhalted.starts
          rwa [h.cursor_eq] at hstart
        · have hwithin := hhalted.within
          rwa [h.cursor_eq, ← h.size_eq] at hwithin
      · refine .inr ⟨hover.cause, ?_, hbreaks⟩
        have hresume := hover.resume
        rwa [h.cursor_eq, ← h.size_eq] at hresume

/-! ## Many calls -/

/-- The lexers that calls lead to, with the position set to places of the text in between. Behind the end of the text
nothing is read any more. -/
inductive Reached (source : Source) : Lexer → Prop
  | start : Reached source (.start source)
  | reset {l : Lexer} {front behind : List Char} (h : Reached source l) (hchars : source.chars = front ++ behind) :
      Reached source (l.reset (byteLength front))
  | next {l : Lexer} (h : Reached source l) (hgoes : ∀ f, l.next.1 = .error f → f.cause ≠ .overrun) :
      Reached source l.next.2

theorem Reached.source_eq (h : Reached source l) : l.source = source := by
  induction h with
  | start => rfl
  | reset _ _ ih => exact ih
  | next _ _ ih => rw [next_source, ih]

/-- No call that ends at all leaves the text. -/
theorem Reached.onBoundary (h : Reached source l) : l.OnBoundary := by
  induction h with
  | start => exact ⟨[], source.chars, rfl, rfl⟩
  | @reset l front behind h hchars ih =>
      have hsource := h.source_eq
      refine ⟨front, behind, hsource ▸ hchars, Nat.min_eq_left ?_⟩
      rw [hsource, Source.size, hchars, byteLength_append]
      exact Nat.le_add_right _ _
  | @next l h hgoes ih =>
      cases hnext : l.next.1 with
      | ok t => exact (advances_of_next ih hnext).onBoundary
      | error f =>
          obtain ⟨hfaults, -⟩ | ⟨hcause, -⟩ := faults_of_next ih hnext
          · exact hfaults.onBoundary
          · exact absurd hcause (hgoes f hnext)

/-- The lexer after a number of calls. -/
def afterCalls : Nat → Lexer → Lexer
  | 0, l => l
  | n + 1, l => afterCalls n l.next.2

/-- An answer after which no token is to come. -/
def IsLast : Scan Token → Prop
  | .ok t => t.kind = .eof
  | .error _ => True

/-- As every token takes a byte, there are no more tokens than bytes. -/
theorem OnBoundary.exists_isLast (h : l.OnBoundary) :
    ∃ n, n ≤ l.source.size - l.position ∧ IsLast (afterCalls n l).next.1 := by
  generalize hleft : l.source.size - l.position = left
  induction left using Nat.strongRecOn generalizing l with
  | _ left ih =>
      cases hnext : l.next.1 with
      | error f => exact ⟨0, Nat.zero_le _, by simp [afterCalls, hnext, IsLast]⟩
      | ok t =>
          by_cases hkind : t.kind = .eof
          · exact ⟨0, Nat.zero_le _, by simp [afterCalls, hnext, IsLast, hkind]⟩
          · have hadvances := advances_of_next h hnext
            have hprogress := hadvances.progress hkind
            have hbound := hadvances.onBoundary.position_le
            rw [next_source] at hbound
            obtain ⟨n, hn, hlast⟩ := ih (l.source.size - l.next.2.position) (by omega) hadvances.onBoundary
              (by rw [next_source])
            exact ⟨n + 1, by omega, hlast⟩

/-- What the calls of a lexer do. -/
structure Reads (source : Source) (l : Lexer) : Prop where
  source_eq : l.source = source
  onBoundary : l.OnBoundary
  position_le : l.position ≤ source.size
  token : ∀ t, l.next.1 = .ok t → l.Advances t
  fault : ∀ f, l.next.1 = .error f → f.cause ≠ .overrun → l.Faults f
  /-- A call overruns the text exactly where a text in quotes breaks off. -/
  overrun_iff : (∃ f, l.next.1 = .error f ∧ f.cause = .overrun) ↔ l.cursor.Breaks
  behindEnd : l.cursor.Breaks → l.next.2.position = source.size + 1
  ends : ∃ n, n ≤ source.size - l.position ∧ IsLast (afterCalls n l).next.1

theorem reached_reads (h : Reached source l) : Reads source l := by
  have hsource := h.source_eq
  have hbound := h.onBoundary
  have hoverrun : l.cursor.Breaks → ∃ f, l.next.1 = .error f ∧ f.cause = .overrun := by
    intro hbreaks
    obtain ⟨f, hscan, hcause⟩ := scanToken_broken hbreaks
    exact ⟨f, by rw [next_eq_error hscan], hcause⟩
  subst hsource
  refine ⟨rfl, hbound, hbound.position_le, fun t => advances_of_next hbound, ?_, ⟨?_, hoverrun⟩, ?_, hbound.exists_isLast⟩
  · intro f hf hcause
    obtain ⟨hfaults, -⟩ | ⟨hover, -⟩ := faults_of_next hbound hf
    · exact hfaults
    · exact absurd hover hcause
  · rintro ⟨f, hf, hcause⟩
    obtain ⟨-, hno⟩ | ⟨-, -, hbreaks⟩ := faults_of_next hbound hf
    · exact absurd hcause hno
    · exact hbreaks
  · intro hbreaks
    obtain ⟨f, hf, hcause⟩ := hoverrun hbreaks
    obtain ⟨-, hno⟩ | ⟨-, hposition, -⟩ := faults_of_next hbound hf
    · exact absurd hcause hno
    · exact hposition

/-- A text in quotes that breaks off, behind a name. -/
def brokenText : Source := .ofString "a \"\\"

theorem brokenText_reads : Reached brokenText ⟨brokenText, 1⟩ ∧ Reads brokenText ⟨brokenText, 1⟩ :=
  have hname : (start brokenText).next = (.ok ⟨.name "a", ⟨0, 1⟩⟩, ⟨brokenText, 1⟩) := by rfl
  have hreached : Reached brokenText ⟨brokenText, 1⟩ := .next (.start) (by rw [hname]; nofun)
  ⟨hreached, reached_reads hreached⟩

/-- The position leaves the text, so that the next look at what is left fails. -/
theorem brokenText_overruns :
    (⟨brokenText, 1⟩ : Lexer).next = (.error ⟨.overrun, ⟨3, 5⟩, 5⟩, ⟨brokenText, 5⟩) ∧ brokenText.size = 4 :=
  ⟨by rfl, by rfl⟩

end Lexer
end FieldScript.Schema
