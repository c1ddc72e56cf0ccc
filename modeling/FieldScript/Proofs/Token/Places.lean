import FieldScript.Proofs.Token.Streams

/-!
# Where tokens stand in their source

A scan of a source never loses its place: what is left of the text is an end of the source, and the offset counts the
bytes in front of it. So a token that is a name covers that name (`Stream.ofSource_names`). The scan moves forward with
every token, so that the bound on the number of tokens is never reached.
-/

namespace FieldScript

open Text

/-- A name that stands in a source where it says. -/
def Source.Holds (source : Source) (id : Ident) : Prop := source.textAt id.span = id.name

/-- An outcome whose fault, if it is one, shows in the text: it is not that a bound was too small. -/
def Textual {α : Type} (x : Except SyntaxFault α) : Prop := ∀ fault, x = .error fault → fault.cause ≠ .exhausted

namespace Textual

variable {α β : Type} {x y : Except SyntaxFault α}

theorem ok (a : α) : Textual (.ok a) := by rintro _ ⟨⟩

theorem error {cause : SyntaxFault.Cause} {span : Span} (h : cause ≠ .exhausted) :
    Textual (.error ⟨cause, span⟩ : Except SyntaxFault α) := by
  rintro _ ⟨⟩
  exact h

theorem map {f : α → β} (h : Textual x) : Textual (x.map f) := by
  cases x with
  | error fault =>
      rintro _ ⟨⟩
      exact h fault rfl
  | ok a => exact ok (f a)

theorem bind {f : α → Except SyntaxFault β} (hx : Textual x) (hf : ∀ a, x = .ok a → Textual (f a)) :
    Textual (x >>= f) := by
  cases x with
  | error fault =>
      rintro _ ⟨⟩
      exact hx fault rfl
  | ok a => exact hf a rfl

theorem ite {p : Prop} [Decidable p] (hx : Textual x) (hy : Textual y) : Textual (if p then x else y) := by
  split <;> assumption

end Textual

namespace Token

/-! ## Moves of a cursor -/

/-- A cursor behind a text that starts at another one. -/
structure Moves (c : Cursor) (w : List Char) (next : Cursor) : Prop where
  rest : c.rest = w ++ next.rest
  offset : next.offset = c.offset + byteLength w

namespace Moves

variable {c mid next : Cursor} {w w' : List Char} {x : Char} {o : Nat}

theorem refl (c : Cursor) : Moves c [] c := ⟨rfl, rfl⟩

theorem trans (h : Moves c w mid) (h' : Moves mid w' next) : Moves c (w ++ w') next :=
  ⟨by rw [h.rest, h'.rest, List.append_assoc], by rw [h'.offset, h.offset, byteLength_append, Nat.add_assoc]⟩

/-- A move behind one more character. -/
theorem cons {cs : List Char} (h : Moves ⟨cs, o + x.utf8Size⟩ w next) : Moves ⟨x :: cs, o⟩ (x :: w) next :=
  ⟨congrArg (x :: ·) h.rest, by rw [h.offset, byteLength_cons, Nat.add_assoc]⟩

theorem drop (c : Cursor) (n : Nat) : Moves c (c.rest.take n) (c.drop n) :=
  ⟨(List.take_append_drop n c.rest).symm, rfl⟩

theorem takeWhile (c : Cursor) (p : Char → Bool) : Moves c (c.takeWhile p).1 (c.takeWhile p).2 :=
  ⟨List.takeWhile_append_dropWhile.symm, rfl⟩

/-- The text that was passed. -/
theorem upTo_eq (h : Moves c w next) : c.upTo next = w := by
  obtain ⟨cs, o⟩ := c
  obtain ⟨rest, o'⟩ := next
  obtain rfl : cs = w ++ rest := h.rest
  exact Cursor.upTo_append

theorem length_le (h : Moves c w next) : next.rest.length ≤ c.rest.length := by
  rw [h.rest, List.length_append]
  omega

theorem length_lt (h : Moves c w next) (hw : w ≠ []) : next.rest.length < c.rest.length := by
  have hpos := List.length_pos_iff.2 hw
  rw [h.rest, List.length_append]
  omega

end Moves

/-- Where bytes can be dropped, they are those of a start of the text. -/
theorem exists_of_dropBytes? {n : Nat} {cs rest : List Char} (h : dropBytes? n cs = some rest) :
    ∃ pre, cs = pre ++ rest ∧ n = byteLength pre := by
  fun_induction dropBytes? n cs with
  | case1 | case3 =>
      cases h
      exact ⟨[], rfl, rfl⟩
  | case2 | case5 => cases h
  | case4 n c cs hn hle ih =>
      obtain ⟨pre, rfl, hlength⟩ := ih h
      refine ⟨c :: pre, rfl, ?_⟩
      rw [byteLength_cons]
      omega

/-- Blanks of ASCII take one byte. -/
theorem utf8Size_of_isAsciiBlank {c : Char} (h : isAsciiBlank c = true) : c.utf8Size = 1 := by
  simp only [isAsciiBlank, Bool.or_eq_true, decide_eq_true_eq] at h
  rcases h with (((rfl | rfl) | rfl) | rfl) | rfl <;> rfl

theorem skipTrivia_moves {trivia : Trivia} {o : Nat} {newline newline' : Bool} {cs : List Char} {next : Cursor}
    (h : skipTrivia trivia o newline cs = .ok (newline', next)) : ∃ w, Moves ⟨cs, o⟩ w next := by
  fun_induction skipTrivia trivia o newline cs with
  | case1 | case7 | case8 =>
      cases h
      exact ⟨_, .refl _⟩
  | case2 _ _ _ ih | case3 _ _ _ ih | case12 _ _ _ _ ih =>
      obtain ⟨w, hw⟩ := ih h
      exact ⟨_, (hw.cons).cons⟩
  | case4 _ _ _ _ _ ih | case9 _ _ _ ih =>
      obtain ⟨w, hw⟩ := ih h
      exact ⟨_, hw.cons⟩
  | case5 _ _ _ _ _ _ _ hblank ih =>
      obtain ⟨w, hw⟩ := ih h
      rw [← utf8Size_of_isAsciiBlank hblank] at hw
      exact ⟨_, hw.cons⟩
  | case6 _ _ _ _ _ _ _ _ _ ih | case10 _ _ _ _ _ ih | case13 _ _ _ _ _ _ ih =>
      obtain ⟨w, hw⟩ := ih h
      exact ⟨_, hw.cons⟩
  | case11 => cases h

/-! ## Moves of the scan -/

/-- The name that a token stands for where a name is read or bound. -/
def Kind.name? : Kind → Option String
  | .identifier name => some name
  | .keyword .asyncWord => some "async"
  | _ => none

/-- The word that a token is. -/
def Kind.word? : Kind → Option String
  | .identifier name => some name
  | .keyword word => some word.text
  | .reserved word => some word
  | _ => none

theorem Kind.word?_of_name? {kind : Kind} {name : String} (h : kind.name? = some name) : kind.word? = some name := by
  unfold Kind.name? at h
  split at h <;> first | exact h | cases h

/-- What the scan of a token passes: nothing only at the end of the text, and for a word that word. -/
structure Passes (c : Cursor) (kind : Kind) (w : List Char) (next : Cursor) : Prop extends Moves c w next where
  ne_nil : kind.isEnd = false → w ≠ []
  word : ∀ word, kind.word? = some word → w = word.toList

/-- A token that is no word and whose text is not empty. -/
theorem Passes.of_moves {c next : Cursor} {kind : Kind} {w : List Char} (h : Moves c w next) (hw : w ≠ [])
    (hkind : kind.word? = none) : Passes c kind w next :=
  ⟨h, fun _ => hw, fun word hword => by cases hkind.symm.trans hword⟩

/-- A word is what it is read as. -/
theorem eq_of_wordKind {word name : String} (h : (wordKind word).word? = some name) : word = name := by
  rcases wordKind_cases word with ⟨k, hkind, htext⟩ | hkind | hkind <;> rw [hkind] at h
  · exact htext.symm.trans (Option.some.inj h)
  · exact Option.some.inj h
  · exact Option.some.inj h

theorem passes_number {d d' : Depths} {c next : Cursor} {kind : Kind} (hstart : StartsNumber c.rest)
    (h : (scanNumber c).map (fun (value, next) => (Kind.number value, d, next)) = .ok (kind, d', next)) :
    ∃ w, Passes c kind w next := by
  obtain ⟨cs, o⟩ := c
  cases hscan : scanNumber ⟨cs, o⟩ with
  | error fault =>
      rw [hscan] at h
      cases h
  | ok result =>
      rw [hscan] at h
      cases h
      obtain ⟨raw, hraw, hoffset, hnumber⟩ := scanNumber_isNumber hstart hscan
      obtain ⟨x, rest, rfl, -⟩ := hnumber.head
      exact ⟨x :: rest, .of_moves ⟨hraw, hoffset⟩ (List.cons_ne_nil x rest) rfl⟩

theorem passes_template {d' outer : Depths} {head : Bool} {x : Char} {rest : List Char} {o : Nat} {next : Cursor}
    {kind : Kind}
    (h : (match scanTemplate o ⟨rest, o + x.utf8Size⟩ (rest.length + 1) [] ⟨rest, o + x.utf8Size⟩ with
      | .ok (part, ending, next) =>
        (.ok (templateKind head part ending, (match ending with
          | .closed => outer
          | .substitution => 0 :: outer), next) : Scan (Kind × Depths × Cursor))
      | .error fault => .error fault) = .ok (kind, d', next)) :
    ∃ w, Passes ⟨x :: rest, o⟩ kind w next := by
  split at h
  · rename_i part ending after hscan
    cases h
    obtain ⟨u, hu, hoffset, -, -⟩ := scanTemplate_local hscan
    have hmoves : Moves ⟨rest, o + x.utf8Size⟩ (u ++ ending.chars) next :=
      ⟨by rw [hu, List.append_assoc], by rw [hoffset, byteLength_append, Nat.add_assoc]⟩
    refine ⟨_, .of_moves hmoves.cons (List.cons_ne_nil x _) ?_⟩
    cases head <;> cases ending <;> rfl
  · cases h

theorem scanKind_passes {d d' : Depths} {c next : Cursor} {kind : Kind} (h : scanKind d c = .ok (kind, d', next)) :
    ∃ w, Passes c kind w next := by
  obtain ⟨cs, o⟩ := c
  cases cs with
  | nil =>
      cases h
      exact ⟨[], .refl _, nofun, nofun⟩
  | cons x rest =>
      simp only [scanKind, Cursor.drop_one] at h
      split at h
      · cases hscan : scanString x o (rest.length + 1) [] ⟨rest, o + x.utf8Size⟩ with
        | error fault =>
            rw [hscan] at h
            cases h
        | ok found =>
            rw [hscan] at h
            cases h
            obtain ⟨body, hbody, -, hoffset, -⟩ := scanString_local hscan
            exact ⟨x :: body, .of_moves (Moves.cons ⟨hbody, hoffset⟩) (List.cons_ne_nil x body) rfl⟩
      split at h
      · exact passes_template h
      split at h
      · rename_i hdigit
        exact passes_number ⟨x, rest, rfl, .inl hdigit⟩ h
      split at h
      · rename_i hpoint
        simp only [Bool.and_eq_true, decide_eq_true_eq] at hpoint
        exact passes_number ⟨x, rest, rfl, .inr hpoint⟩ h
      split at h
      · exact passes_template h
      split at h
      · rename_i hword
        cases h
        obtain ⟨y, w, hw, -, -⟩ : IsWord ((x :: rest).takeWhile isWordPart) := isWord_takeWhile hword
        refine ⟨_, Moves.takeWhile ⟨x :: rest, o⟩ isWordPart, fun _ => ?_, fun word hname => ?_⟩
        · show (x :: rest).takeWhile isWordPart ≠ []
          rw [hw]
          exact List.cons_ne_nil y w
        · rw [← eq_of_wordKind hname]
          exact String.toList_ofList.symm
      split at h
      · rename_i mark _
        cases h
        refine ⟨_, .of_moves (Moves.drop ⟨x :: rest, o⟩ mark.text.length) ?_ rfl⟩
        cases mark <;> exact List.cons_ne_nil _ _
      · cases h

/-- A token stands behind blanks and comments and has the text that it passes. -/
theorem scanToken_passes {d d' : Depths} {c next : Cursor} {t : Token} (h : scanToken d c = .ok (t, d', next)) :
    ∃ blank first w, Moves c blank first ∧ Passes first t.kind w next ∧ t.span = ⟨first.offset, next.offset⟩ ∧
      t.text = String.ofList w := by
  simp only [scanToken] at h
  split at h
  · cases h
  · rename_i newline first htrivia
    split at h
    · cases h
    · rename_i kind depths after hkind
      cases h
      obtain ⟨blank, hblank⟩ := skipTrivia_moves htrivia
      obtain ⟨w, hw⟩ := scanKind_passes hkind
      exact ⟨blank, first, w, hblank, hw, rfl, congrArg String.ofList hw.upTo_eq⟩

theorem scanToken_moves {d d' : Depths} {c next : Cursor} {t : Token} (h : scanToken d c = .ok (t, d', next)) :
    ∃ blank first w, Moves c blank first ∧ Passes first t.kind w next ∧ t.span = ⟨first.offset, next.offset⟩ := by
  obtain ⟨blank, first, w, hblank, hw, hspan, -⟩ := scanToken_passes h
  exact ⟨blank, first, w, hblank, hw, hspan⟩

/-! ## Faults of the scan -/

open Textual (ok error map ite)

theorem skipTrivia_textual (trivia : Trivia) (o : Nat) (newline : Bool) (cs : List Char) :
    Textual (skipTrivia trivia o newline cs) := by
  fun_induction skipTrivia trivia o newline cs with
  | case1 | case7 | case8 => exact ok _
  | case11 => exact error nofun
  | _ => assumption

theorem scanNumber_textual (c : Cursor) : Textual (scanNumber c) := by
  have hdecimal : Textual (scanDecimal c) := by
    refine ite (error nofun) ?_
    split
    · exact ok _
    · exact error nofun
  unfold scanNumber
  split
  · split
    · exact ite (error nofun) (ok _)
    · exact hdecimal
  · exact hdecimal

theorem scanEscape_textual (c : Cursor) : Textual (scanEscape c) := by
  have hhex : ∀ n next, Textual (scanHex n c.offset next) := fun _ _ => ite (ok _) (error nofun)
  have hbraced : ∀ next, Textual (scanBraced c.offset next) := fun _ => ite (ok _) (error nofun)
  unfold scanEscape
  split
  · exact error nofun
  · have hplain : ∀ {found}, Textual (.ok found : Scan (List Char × Cursor)) := ok _
    refine ite hplain (ite hplain (ite hplain (ite hplain (ite hplain (ite hplain (ite hplain ?_))))))
    exact ite (map (hhex _ _)) (ite (ite (map (hbraced _)) (map (hhex _ _))) (ite hplain (ite hplain hplain)))

theorem scanString_textual (quote : Char) (start fuel : Nat) (acc : List Char) (c : Cursor) :
    Textual (scanString quote start fuel acc c) := by
  induction fuel generalizing acc c with
  | zero => exact error nofun
  | succ fuel ih =>
      unfold scanString
      split
      · exact error nofun
      · refine ite (error nofun) (ite (ok _) (ite ?_ (ih _ _)))
        split
        · exact ih _ _
        · rename_i fault hescape
          rintro _ ⟨⟩
          exact scanEscape_textual c fault hescape

theorem scanTemplate_textual (start : Nat) (first : Cursor) (fuel : Nat) (acc : List Char) (c : Cursor) :
    Textual (scanTemplate start first fuel acc c) := by
  induction fuel generalizing acc c with
  | zero => exact error nofun
  | succ fuel ih =>
      unfold scanTemplate
      dsimp only
      split
      · exact error nofun
      · refine ite (ok _) (ite (ok _) (ite ?_ (ite (ih _ _) (ih _ _))))
        split
        · exact ih _ _
        · rename_i fault hescape
          rintro _ ⟨⟩
          exact scanEscape_textual c fault hescape

theorem scanKind_textual (d : Depths) (c : Cursor) : Textual (scanKind d c) := by
  unfold scanKind
  split
  · exact ok _
  · have htemplate : ∀ {start fuel first head} {outer : Depths}, Textual
        (match scanTemplate start first fuel [] first with
        | .ok (part, ending, next) =>
          (.ok (templateKind head part ending, (match ending with
            | .closed => outer
            | .substitution => 0 :: outer), next) : Scan (Kind × Depths × Cursor))
        | .error fault => .error fault) := by
      intro start fuel first head outer
      split
      · exact ok _
      · rename_i fault hfault
        rintro _ ⟨⟩
        exact scanTemplate_textual _ _ _ _ _ fault hfault
    refine ite (map (scanString_textual _ _ _ _ _)) (ite htemplate ?_)
    refine ite (map (scanNumber_textual c)) (ite (map (scanNumber_textual c)) (ite htemplate (ite (ok _) ?_)))
    split
    · exact ok _
    · exact error nofun

theorem scanToken_textual (d : Depths) (c : Cursor) : Textual (scanToken d c) := by
  unfold scanToken
  split
  · rename_i fault hfault
    rintro _ ⟨⟩
    exact skipTrivia_textual _ _ _ _ fault hfault
  · split
    · rename_i fault hfault
      rintro _ ⟨⟩
      exact scanKind_textual _ _ fault hfault
    · exact ok _

/-! ## Names of a stream -/

/-- A stream that ends with an end mark or with a fault of the text, and whose names are all as told. -/
def Stream.Names (I : Ident → Prop) : Stream → Prop
  | .cons t rest => (∀ name, t.kind.name? = some name → I ⟨name, t.span⟩) ∧ t.isEof = false ∧ rest.Names I
  | .done t => t.isEof = true
  | .failed fault => fault.cause ≠ .exhausted

theorem isEof_eq (t : Token) : t.isEof = t.kind.isEnd := by
  obtain ⟨kind, _, _, _⟩ := t
  cases kind <;> rfl

theorem holds_of_moves {source : Source} {pre w : List Char} {name : String} {first next : Cursor}
    (hsource : source.chars = pre ++ first.rest) (hoffset : first.offset = byteLength pre) (h : Moves first w next)
    (hw : w = name.toList) : source.Holds ⟨name, ⟨first.offset, next.offset⟩⟩ := by
  have hdrop : dropBytes? first.offset source.chars = some (w ++ next.rest) := by
    rw [hsource, hoffset, dropBytes?_append, h.rest]
  have htake : takeBytes? (next.offset - first.offset) (w ++ next.rest) = some w := by
    rw [h.offset, Nat.add_sub_cancel_left, takeBytes?_append]
  have hle : first.offset ≤ next.offset := by
    rw [h.offset]
    omega
  simp only [Source.Holds, Source.textAt, slice, slice?, if_pos hle, hdrop, Option.bind_some, htake, Option.getD_some]
  rw [hw, String.ofList_toList]

/-- A scan that starts at its place in a source. Each token takes at least one character, so the bound is not met. -/
theorem scan_names {source : Source} {fuel : Nat} {d : Depths} {pre : List Char} {c : Cursor}
    (hsource : source.chars = pre ++ c.rest) (hoffset : c.offset = byteLength pre) (hfuel : c.rest.length < fuel) :
    (Stream.scan fuel d c).Names source.Holds := by
  induction fuel generalizing d pre c with
  | zero => omega
  | succ fuel ih =>
      unfold Stream.scan
      split
      · rename_i fault hfault
        exact scanToken_textual d c fault hfault
      · rename_i t d' next htoken
        obtain ⟨blank, first, w, hblank, hw, hspan⟩ := scanToken_moves htoken
        split
        · assumption
        · rename_i heof
          rw [Bool.not_eq_true, isEof_eq] at heof
          have hfirst : source.chars = (pre ++ blank) ++ first.rest := by
            rw [hsource, hblank.rest, List.append_assoc]
          have hplace : first.offset = byteLength (pre ++ blank) := by
            rw [hblank.offset, hoffset, byteLength_append]
          have hafter : source.chars = (pre ++ blank ++ w) ++ next.rest := by
            rw [hfirst, hw.rest, ← List.append_assoc]
          have hstop : next.offset = byteLength (pre ++ blank ++ w) := by
            rw [hw.offset, hplace, ← byteLength_append]
          have hshorter := hw.length_lt (hw.ne_nil heof)
          have hle := hblank.length_le
          refine ⟨fun name hname => ?_, by rw [isEof_eq, heof], ih hafter hstop (by omega)⟩
          rw [hspan]
          exact holds_of_moves hfirst hplace hw.toMoves (hw.word name (Kind.word?_of_name? hname))

/-- Every name that the scan of a source finds is the text of its span. -/
theorem Stream.ofSource_names (source : Source) (offset : Nat) : (ofSource source offset).Names source.Holds := by
  simp only [ofSource]
  split
  · rename_i rest hrest
    obtain ⟨pre, hsource, hlength⟩ := exists_of_dropBytes? hrest
    exact scan_names hsource hlength (Nat.lt_succ_self _)
  · rintro ⟨⟩

end Token
end FieldScript
