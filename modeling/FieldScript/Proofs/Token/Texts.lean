import FieldScript.Proofs.Token.Lexeme

/-!
# Quoted texts and templates in a text

What a quoted text or a piece of a template stands for is decided by its own characters: the scan finds the same
in them whatever follows.

* `scanString_local`, `scanTemplate_local`: what the scan has found, it finds again.
* `Lexeme.quoted_scans`, `Lexeme.template_scans`: such texts scan.
-/

namespace FieldScript.Token

open FieldScript.Text

/-! ## Escapes -/

/-- Two texts that an escape cannot tell apart behind itself. -/
structure Alike (r r' : List Char) : Prop where
  digit : r.head?.any isDigit = r'.head?.any isDigit
  line : r.head? = some '\n' ↔ r'.head? = some '\n'

theorem Alike.of_head {r r' : List Char} (h : r.head? = r'.head?) : Alike r r' := by
  constructor <;> rw [h]

theorem scanHex_local {n start : Nat} {cs : List Char} {o : Nat} {x : Char} {next : Cursor}
    (h : scanHex n start ⟨cs, o⟩ = .ok (x, next)) : ∃ digits, cs = digits ++ next.rest ∧ digits.length = n ∧
      next.offset = o + byteLength digits ∧
      ∀ start' r o', scanHex n start' ⟨digits ++ r, o'⟩ = .ok (x, ⟨r, o' + byteLength digits⟩) := by
  simp only [scanHex] at h
  split at h
  · rename_i hdigits
    cases h
    have hlength : (cs.take n).length = n := by simpa using (Bool.and_eq_true_iff.1 hdigits).1
    refine ⟨cs.take n, by simp [Cursor.drop, Cursor.past], hlength, rfl, fun start' r o' => ?_⟩
    have htake : (cs.take n ++ r).take n = cs.take n := by
      rw [List.take_append_of_le_length (by omega), List.take_take, Nat.min_self]
    simp only [scanHex, htake, hdigits, if_true, Cursor.drop_append hlength]
  · cases h

theorem scanBraced_local {start : Nat} {cs : List Char} {o : Nat} {x : Char} {next : Cursor}
    (h : scanBraced start ⟨cs, o⟩ = .ok (x, next)) : ∃ digits, cs = digits ++ next.rest ∧
      next.offset = o + byteLength digits ∧
      ∀ start' r o', scanBraced start' ⟨digits ++ r, o'⟩ = .ok (x, ⟨r, o' + byteLength digits⟩) := by
  obtain ⟨digits, rest, rfl, hdigits, hrest⟩ := exists_halts (isDigitOf 16) cs
  simp only [scanBraced, Cursor.takeWhile_append hdigits hrest] at h
  split at h
  · rename_i hclose
    cases rest with
    | nil => cases hclose
    | cons c rest =>
        rw [List.head?_cons, Option.some.injEq] at hclose
        subst hclose
        cases h
        refine ⟨digits ++ ['}'], by simp, by simp [Nat.add_assoc], fun start' r o' => ?_⟩
        have hbrace : Halts (isDigitOf 16) ('}' :: r) := halts_cons.2 (by decide)
        have htake := Cursor.takeWhile_append (o := o') hdigits hbrace
        simp only [List.append_assoc, List.cons_append, List.nil_append]
        simp [scanBraced, htake, Nat.add_assoc]
  · cases h

/-- An escape whose value is read by a scan that looks at nothing behind it. The scan is entered only in front of
certain texts. -/
theorem escape_mapped (pre : List Char) (scan : Nat → Cursor → Scan (Char × Cursor)) {E : List Char → Prop}
    (hscan : ∀ rest o, E rest → scanEscape ⟨'\\' :: (pre ++ rest), o⟩ =
      (scan o ⟨rest, o + byteLength ('\\' :: pre)⟩).map fun (x, next) => ([x], next))
    {rest : List Char} {o : Nat} {chars : List Char} {next : Cursor} (henters : E rest)
    (hlocal : ∀ x next, scan o ⟨rest, o + byteLength ('\\' :: pre)⟩ = .ok (x, next) →
      ∃ digits, rest = digits ++ next.rest ∧ next.offset = o + byteLength ('\\' :: pre) + byteLength digits ∧
        ∀ r, E (digits ++ r) ∧ ∀ start o', scan start ⟨digits ++ r, o'⟩ = .ok (x, ⟨r, o' + byteLength digits⟩))
    (h : scanEscape ⟨'\\' :: (pre ++ rest), o⟩ = .ok (chars, next)) : ∃ esc, pre ++ rest = esc ++ next.rest ∧
      next.offset = o + byteLength ('\\' :: esc) ∧ ∀ r o', Alike next.rest r →
        scanEscape ⟨'\\' :: (esc ++ r), o'⟩ = .ok (chars, ⟨r, o' + byteLength ('\\' :: esc)⟩) := by
  rw [hscan rest o henters] at h
  cases hfound : scan o ⟨rest, o + byteLength ('\\' :: pre)⟩ with
  | error fault =>
      rw [hfound] at h
      cases h
  | ok found =>
      rw [hfound] at h
      cases h
      obtain ⟨digits, hrest, hoffset, hagain⟩ := hlocal _ _ hfound
      refine ⟨pre ++ digits, ?_, ?_, fun r o' _ => ?_⟩
      · rw [hrest, List.append_assoc]
      · simp only [hoffset, byteLength_cons, byteLength_append, Nat.add_assoc]
      · rw [List.append_assoc, hscan _ _ (hagain r).1, (hagain r).2]
        simp [Except.map, Nat.add_assoc]

/-- What an escape stands for is decided by itself and the kind of character behind it. -/
theorem scanEscape_local {cs : List Char} {o : Nat} {chars : List Char} {next : Cursor}
    (h : scanEscape ⟨'\\' :: cs, o⟩ = .ok (chars, next)) : ∃ esc, cs = esc ++ next.rest ∧
      next.offset = o + byteLength ('\\' :: esc) ∧ ∀ r o', Alike next.rest r →
        scanEscape ⟨'\\' :: (esc ++ r), o'⟩ = .ok (chars, ⟨r, o' + byteLength ('\\' :: esc)⟩) := by
  cases cs with
  | nil => cases h
  | cons mark rest =>
      by_cases hplain : mark ∈ ['n', 't', 'r', 'b', 'f', 'v', '\n']
      · obtain ⟨chars', hscan⟩ : ∃ chars', ∀ rest o, scanEscape ⟨'\\' :: mark :: rest, o⟩ =
            .ok (chars', ⟨rest, o + byteLength ['\\', mark]⟩) := by
          simp only [List.mem_cons, List.not_mem_nil, or_false] at hplain
          rcases hplain with rfl | rfl | rfl | rfl | rfl | rfl | rfl <;> exact ⟨_, fun _ _ => rfl⟩
        rw [hscan] at h
        cases h
        exact ⟨[mark], rfl, rfl, fun r o' _ => hscan r o'⟩
      simp only [List.mem_cons, List.not_mem_nil, or_false, not_or] at hplain
      obtain ⟨hn, ht, hr, hb, hf, hv, hline⟩ := hplain
      by_cases hzero : mark = '0'
      · subst hzero
        have hscan : ∀ rest o, scanEscape ⟨'\\' :: '0' :: rest, o⟩ =
            .ok ([if rest.head?.any isDigit then '0' else '\x00'], ⟨rest, o + byteLength ['\\', '0']⟩) := by
          intro rest o
          cases hdigit : rest.head?.any isDigit <;> simp [scanEscape, hdigit]
        rw [hscan] at h
        cases h
        refine ⟨['0'], rfl, rfl, fun r o' halike => ?_⟩
        rw [List.cons_append, List.nil_append, hscan, halike.digit]
      by_cases hx : mark = 'x'
      · subst hx
        refine escape_mapped ['x'] (scanHex 2) (E := fun _ => True) (fun _ _ _ => rfl) trivial (fun x next hfound => ?_) h
        obtain ⟨digits, hrest, -, hoffset, hagain⟩ := scanHex_local hfound
        exact ⟨digits, hrest, hoffset, fun r => ⟨trivial, fun start o' => hagain start r o'⟩⟩
      by_cases hu : mark = 'u'
      · subst hu
        by_cases hbrace : rest.head? = some '{'
        · obtain ⟨more, rfl⟩ : ∃ more, rest = '{' :: more := by
            cases rest with
            | nil => cases hbrace
            | cons c more => exact ⟨more, by simpa using hbrace⟩
          refine escape_mapped ['u', '{'] scanBraced (E := fun _ => True) (fun _ _ _ => rfl) trivial
            (fun x next hfound => ?_) h
          obtain ⟨digits, hrest, hoffset, hagain⟩ := scanBraced_local hfound
          exact ⟨digits, hrest, hoffset, fun r => ⟨trivial, fun start o' => hagain start r o'⟩⟩
        · refine escape_mapped ['u'] (scanHex 4) (E := fun rest => rest.head? ≠ some '{') (fun rest o hrest => ?_) hbrace
            (fun x next hfound => ?_) h
          · simp [scanEscape, hrest]
          · obtain ⟨digits, hrest, hlength, hoffset, hagain⟩ := scanHex_local hfound
            refine ⟨digits, hrest, hoffset, fun r => ⟨?_, fun start o' => hagain start r o'⟩⟩
            cases digits with
            | nil => cases hlength
            | cons d digits => simpa [hrest] using hbrace
      by_cases hreturn : mark = '\r'
      · subst hreturn
        by_cases hfeed : rest.head? = some '\n'
        · obtain ⟨more, rfl⟩ : ∃ more, rest = '\n' :: more := by
            cases rest with
            | nil => cases hfeed
            | cons c more => exact ⟨more, by simpa using hfeed⟩
          have hscan : ∀ rest o, scanEscape ⟨'\\' :: '\r' :: '\n' :: rest, o⟩ =
              .ok ([], ⟨rest, o + byteLength ['\\', '\r', '\n']⟩) := fun _ _ => rfl
          rw [hscan] at h
          cases h
          exact ⟨['\r', '\n'], rfl, rfl, fun r o' _ => hscan r o'⟩
        · have hscan : ∀ rest o, rest.head? ≠ some '\n' → scanEscape ⟨'\\' :: '\r' :: rest, o⟩ =
              .ok ([], ⟨rest, o + byteLength ['\\', '\r']⟩) := by
            intro rest o hrest
            simp [scanEscape, hrest]
          rw [hscan rest o hfeed] at h
          cases h
          exact ⟨['\r'], rfl, rfl, fun r o' halike => hscan r o' (mt halike.line.2 hfeed)⟩
      have hscan : ∀ rest o, scanEscape ⟨'\\' :: mark :: rest, o⟩ =
          .ok ([mark], ⟨rest, o + byteLength ['\\', mark]⟩) := by
        intro rest o
        simp [scanEscape, hn, ht, hr, hb, hf, hv, hline, hzero, hx, hu, hreturn]
      rw [hscan] at h
      cases h
      exact ⟨[mark], rfl, rfl, fun r o' _ => hscan r o'⟩

/-! ## Quoted texts -/

/-- A quoted text ends with its quote, and nothing behind it matters. -/
theorem scanString_local {quote : Char} {start : Nat} {fuel : Nat} {acc cs : List Char} {o : Nat} {s : String}
    {next : Cursor} (h : scanString quote start fuel acc ⟨cs, o⟩ = .ok (s, next)) :
    ∃ body, cs = body ++ next.rest ∧ body ≠ [] ∧ next.offset = o + byteLength body ∧
      ∀ start' fuel' r o', body.length ≤ fuel' →
        scanString quote start' fuel' acc ⟨body ++ r, o'⟩ = .ok (s, ⟨r, o' + byteLength body⟩) := by
  induction fuel generalizing acc cs o with
  | zero => cases h
  | succ fuel ih =>
      cases cs with
      | nil => cases h
      | cons x rest =>
          simp only [scanString, Cursor.drop_one] at h
          split at h
          · cases h
          rename_i hline
          split at h
          · rename_i hquote
            cases h
            refine ⟨[x], rfl, List.cons_ne_nil _ _, rfl, fun start' fuel' r o' hfuel => ?_⟩
            obtain ⟨fuel', rfl⟩ : ∃ n, fuel' = n + 1 := ⟨fuel' - 1, by simp at hfuel; omega⟩
            subst hquote
            simp [scanString, hline]
          rename_i hquote
          split at h
          · rename_i hescape
            subst hescape
            split at h
            · rename_i chars after hchars
              obtain ⟨esc, hrest, hoffset, hlocal⟩ := scanEscape_local hchars
              obtain ⟨body, hbody, hne, hnext, hagain⟩ := ih h
              refine ⟨'\\' :: (esc ++ body), ?_, List.cons_ne_nil _ _, ?_, fun start' fuel' r o' hfuel => ?_⟩
              · simp [hrest, hbody]
              · simp only [hnext, hoffset, byteLength_cons, byteLength_append, Nat.add_assoc]
              · obtain ⟨fuel', rfl⟩ : ∃ n, fuel' = n + 1 := ⟨fuel' - 1, by simp at hfuel; omega⟩
                have halike : Alike after.rest (body ++ r) := by
                  refine .of_head ?_
                  rw [hbody]
                  cases body with
                  | nil => exact absurd rfl hne
                  | cons c body => rfl
                have hbound : body.length ≤ fuel' := by simp at hfuel; omega
                simp only [List.cons_append, List.append_assoc, scanString, hline, hquote, if_false, if_true,
                  hlocal (body ++ r) o' halike, hagain start' fuel' r _ hbound]
                simp [Nat.add_assoc]
            · cases h
          · rename_i hescape
            obtain ⟨body, hbody, hne, hnext, hagain⟩ := ih h
            refine ⟨x :: body, by rw [hbody]; rfl, List.cons_ne_nil _ _, ?_, fun start' fuel' r o' hfuel => ?_⟩
            · simp only [hnext, byteLength_cons, Nat.add_assoc]
            · obtain ⟨fuel', rfl⟩ : ∃ n, fuel' = n + 1 := ⟨fuel' - 1, by simp at hfuel; omega⟩
              have hbound : body.length ≤ fuel' := by simp at hfuel; omega
              simp only [List.cons_append, scanString, hline, hquote, hescape, if_false, Cursor.drop_one,
                hagain start' fuel' r _ hbound]
              simp [Nat.add_assoc]

/-! ## Pieces of templates -/

/-- The characters that end a piece of a template. -/
def TemplateEnd.chars : TemplateEnd → List Char
  | .closed => ['\x60']
  | .substitution => ['$', '{']

/-- What the text of a template looks like to an escape in front of its end. -/
theorem TemplateEnd.alike (ending ending' : TemplateEnd) (r r' : List Char) :
    Alike (ending.chars ++ r) (ending'.chars ++ r') := by
  cases ending <;> cases ending' <;> exact ⟨rfl, by simp [chars]⟩

/-- The text of a piece of a template, whatever ends it. -/
theorem scanTemplate_local {start : Nat} {first : Cursor} {fuel : Nat} {acc cs : List Char} {o : Nat}
    {part : TemplatePart} {ending : TemplateEnd} {next : Cursor}
    (h : scanTemplate start first fuel acc ⟨cs, o⟩ = .ok (part, ending, next)) :
    ∃ u, cs = u ++ (ending.chars ++ next.rest) ∧ next.offset = o + byteLength u + byteLength ending.chars ∧
      part.raw = String.ofList (first.upTo ⟨ending.chars ++ next.rest, o + byteLength u⟩) ∧
      ∀ start' first' fuel' ending' r o', u.length < fuel' →
        scanTemplate start' first' fuel' acc ⟨u ++ (ending'.chars ++ r), o'⟩ =
          .ok (⟨String.ofList (first'.upTo ⟨ending'.chars ++ r, o' + byteLength u⟩), part.cooked⟩, ending',
            ⟨r, o' + byteLength u + byteLength ending'.chars⟩) := by
  induction fuel generalizing acc cs o with
  | zero => cases h
  | succ fuel ih =>
      -- the text ends here, whatever ends it
      have hend : ∀ start' first' fuel' (ending' : TemplateEnd) r o', 0 < fuel' →
          scanTemplate start' first' fuel' acc ⟨ending'.chars ++ r, o'⟩ =
            .ok (⟨String.ofList (first'.upTo ⟨ending'.chars ++ r, o'⟩), String.ofList acc.reverse⟩, ending',
              ⟨r, o' + byteLength ending'.chars⟩) := by
        intro start' first' fuel' ending' r o' hfuel
        obtain ⟨fuel', rfl⟩ : ∃ n, fuel' = n + 1 := ⟨fuel' - 1, by omega⟩
        cases ending' <;> rfl
      cases cs with
      | nil => cases h
      | cons x rest =>
          simp only [scanTemplate, Cursor.drop_one] at h
          split at h
          · rename_i htick
            have hx : x = '\x60' := Char.toNat_inj.1 htick
            subst hx
            cases h
            exact ⟨[], rfl, rfl, rfl, fun start' first' fuel' ending' r o' hfuel => hend _ _ _ _ _ _ hfuel⟩
          rename_i htick
          split at h
          · rename_i hbrace
            simp only [Bool.and_eq_true, decide_eq_true_eq] at hbrace
            obtain ⟨rfl, hbrace⟩ := hbrace
            cases rest with
            | nil => cases hbrace
            | cons c rest =>
                cases hbrace
                cases h
                exact ⟨[], rfl, rfl, rfl, fun start' first' fuel' ending' r o' hfuel => hend _ _ _ _ _ _ hfuel⟩
          rename_i hbrace
          -- what may stand behind a piece that is not the last one
          have hnot : ∀ u (ending' : TemplateEnd) r, rest = u ++ (ending.chars ++ next.rest) →
              (x = '$' && (u ++ (ending'.chars ++ r)).head? = some '{' : Bool) = false := by
            intro u ending' r hrest
            cases u with
            | nil => cases ending' <;> simp [TemplateEnd.chars]
            | cons c u => simpa [hrest] using hbrace
          split at h
          · rename_i hescape
            subst hescape
            split at h
            · rename_i chars after hchars
              obtain ⟨esc, hrest, hoffset, hlocal⟩ := scanEscape_local hchars
              obtain ⟨u, hu, hnext, hraw, hagain⟩ := ih h
              refine ⟨'\\' :: (esc ++ u), ?_, ?_, ?_, fun start' first' fuel' ending' r o' hfuel => ?_⟩
              · simp [hrest, hu]
              · simp only [hnext, hoffset, byteLength_cons, byteLength_append, Nat.add_assoc]
              · simpa only [hoffset, byteLength_cons, byteLength_append, Nat.add_assoc] using hraw
              · obtain ⟨fuel', rfl⟩ : ∃ n, fuel' = n + 1 := ⟨fuel' - 1, by simp at hfuel; omega⟩
                have halike : Alike after.rest (u ++ (ending'.chars ++ r)) := by
                  rw [hu]
                  cases u with
                  | nil => exact TemplateEnd.alike _ _ _ _
                  | cons c u => exact .of_head rfl
                have hbound : u.length < fuel' := by simp at hfuel; omega
                have htick' : ¬ ('\\').toNat = 96 := by decide
                simp only [List.cons_append, List.append_assoc, scanTemplate, htick', if_false, if_true,
                  hlocal _ o' halike, hagain start' first' fuel' ending' r _ hbound, byteLength_cons,
                  byteLength_append, Nat.add_assoc]
                rfl
            · cases h
          rename_i hescape
          split at h
          · rename_i hreturn
            subst hreturn
            by_cases hfeed : rest.head? = some '\n'
            · -- a line end of two characters
              cases rest with
              | nil => cases hfeed
              | cons c rest =>
                  cases hfeed
                  simp only [List.head?_cons, if_true, Cursor.drop_two] at h
                  obtain ⟨u, hu, hnext, hraw, hagain⟩ := ih h
                  refine ⟨'\r' :: '\n' :: u, ?_, ?_, ?_, fun start' first' fuel' ending' r o' hfuel => ?_⟩
                  · rw [hu]
                    rfl
                  · simp only [hnext, byteLength_cons, Nat.add_assoc]
                  · simpa only [byteLength_cons, Nat.add_assoc] using hraw
                  · obtain ⟨fuel', rfl⟩ : ∃ n, fuel' = n + 1 := ⟨fuel' - 1, by simp at hfuel; omega⟩
                    have hbound : u.length < fuel' := by simp at hfuel; omega
                    have hagain := hagain start' first' fuel' ending' r (o' + ('\r'.utf8Size + '\n'.utf8Size)) hbound
                    simp only [byteLength_cons, Nat.add_assoc] at hagain ⊢
                    exact hagain
            · simp only [hfeed, if_false] at h
              obtain ⟨u, hu, hnext, hraw, hagain⟩ := ih h
              refine ⟨'\r' :: u, ?_, ?_, ?_, fun start' first' fuel' ending' r o' hfuel => ?_⟩
              · rw [hu]
                rfl
              · simp only [hnext, byteLength_cons, Nat.add_assoc]
              · simpa only [byteLength_cons, Nat.add_assoc] using hraw
              · obtain ⟨fuel', rfl⟩ : ∃ n, fuel' = n + 1 := ⟨fuel' - 1, by simp at hfuel; omega⟩
                have hbound : u.length < fuel' := by simp at hfuel; omega
                have hfeed' : ¬ (u ++ (ending'.chars ++ r)).head? = some '\n' := by
                  cases u with
                  | nil => cases ending' <;> simp [TemplateEnd.chars]
                  | cons c u => simpa [hu] using hfeed
                have htick' : ¬ ('\r').toNat = 96 := by decide
                have hescape' : ¬ '\r' = '\\' := by decide
                simp only [List.cons_append, scanTemplate, htick', hnot u ending' r hu, hescape', hfeed', if_false,
                  if_true, Bool.false_eq_true, Cursor.drop_one, hagain start' first' fuel' ending' r _ hbound,
                  byteLength_cons, Nat.add_assoc]
          · rename_i hreturn
            obtain ⟨u, hu, hnext, hraw, hagain⟩ := ih h
            refine ⟨x :: u, ?_, ?_, ?_, fun start' first' fuel' ending' r o' hfuel => ?_⟩
            · rw [hu]
              rfl
            · simp only [hnext, byteLength_cons, Nat.add_assoc]
            · simpa only [byteLength_cons, Nat.add_assoc] using hraw
            · obtain ⟨fuel', rfl⟩ : ∃ n, fuel' = n + 1 := ⟨fuel' - 1, by simp at hfuel; omega⟩
              have hbound : u.length < fuel' := by simp at hfuel; omega
              simp only [List.cons_append, scanTemplate, htick, hnot u ending' r hu, hescape, hreturn, if_false,
                Bool.false_eq_true, Cursor.drop_one, hagain start' first' fuel' ending' r _ hbound,
                byteLength_cons, Nat.add_assoc]

/-! ## Texts as lexemes -/

/-- A text in quotes that the scan reads as `s`. -/
def IsQuoted (s : String) (raw : List Char) : Prop :=
  ∃ quote body, raw = quote :: body ∧ (quote = '"' || quote = '\'') = true ∧
    ∀ start fuel r o, body.length ≤ fuel →
      scanString quote start fuel [] ⟨body ++ r, o⟩ = .ok (s, ⟨r, o + byteLength body⟩)

/-- A piece of a template whose escapes the scan resolves as told. -/
def IsPart (part : TemplatePart) : Prop :=
  ∀ start first fuel (ending : TemplateEnd) r o, part.raw.toList.length < fuel →
    scanTemplate start first fuel [] ⟨part.raw.toList ++ (ending.chars ++ r), o⟩ =
      .ok (⟨String.ofList (first.upTo ⟨ending.chars ++ r, o + byteLength part.raw.toList⟩), part.cooked⟩, ending,
        ⟨r, o + byteLength part.raw.toList + byteLength ending.chars⟩)

namespace Lexeme

/-- A quoted text as it is written. -/
def quoted (s : String) (raw : List Char) : Lexeme := ⟨.string s, raw⟩

/-- A piece of a template with what delimits it. -/
def piece (head : Bool) (part : TemplatePart) (ending : TemplateEnd) : Lexeme :=
  ⟨templateKind head part ending, (if head then '\x60' else '}') :: (part.raw.toList ++ ending.chars)⟩

theorem quoted_scans {s : String} {raw : List Char} (h : IsQuoted s raw) (cs : List Char) (d : Depths) :
    (quoted s raw).Scans d d cs := by
  obtain ⟨quote, body, rfl, hquote, hscan⟩ := h
  refine ⟨List.cons_ne_nil _ _, rfl, fun o newline => ?_, fun o => ?_⟩
  · simp only [Bool.or_eq_true, decide_eq_true_eq] at hquote
    rcases hquote with rfl | rfl <;> rfl
  · have hfuel : body.length ≤ (body ++ cs).length + 1 := by
      rw [List.length_append]
      omega
    simp only [quoted, List.cons_append, scanKind, hquote, if_true, Cursor.drop_one, hscan _ _ _ _ hfuel]
    simp [Except.map, Nat.add_assoc]

/-- The depths behind a piece of a template, of which `outer` are around it. -/
def depthsBehind (outer : Depths) : TemplateEnd → Depths
  | .closed => outer
  | .substitution => 0 :: outer

theorem piece_scans {part : TemplatePart} (h : IsPart part) (head : Bool) (ending : TemplateEnd) (outer : Depths)
    (cs : List Char) :
    (piece head part ending).Scans (if head then outer else 0 :: outer) (depthsBehind outer ending) cs := by
  have hfuel : part.raw.toList.length < (part.raw.toList ++ (ending.chars ++ cs)).length + 1 := by
    rw [List.length_append]
    omega
  have hscan := fun start o => h start ⟨part.raw.toList ++ (ending.chars ++ cs), o⟩ _ ending cs o hfuel
  simp only [Cursor.upTo_append, String.ofList_toList] at hscan
  refine ⟨List.cons_ne_nil _ _, ?_, fun o newline => ?_, fun o => ?_⟩
  · cases head <;> cases ending <;> rfl
  · cases head <;> rfl
  · cases head with
    | true =>
        have htick : ('\x60').toNat = 96 := by decide
        have hquote : ('\x60' = '"' || '\x60' = '\'' : Bool) = false := by decide
        simp only [piece, List.cons_append, List.append_assoc, scanKind, if_true, hquote, htick, Bool.false_eq_true,
          if_false, Cursor.drop_one, hscan]
        cases ending <;> simp [depthsBehind, Nat.add_assoc]
    | false =>
        have htick : ¬ ('}').toNat = 96 := by decide
        have hquote : ('}' = '"' || '}' = '\'' : Bool) = false := by decide
        have hdigit : isDigit '}' = false := by decide
        have hpoint : ¬ '}' = '.' := by decide
        simp only [piece, List.cons_append, List.append_assoc, scanKind, hquote, htick, hdigit, hpoint,
          Bool.false_eq_true, if_false, decide_false, decide_true, Bool.false_and, Bool.true_and, List.head?_cons,
          if_true, Cursor.drop_one, hscan, List.tail_cons]
        cases ending <;> simp [depthsBehind, Nat.add_assoc]

end Lexeme
end FieldScript.Token
