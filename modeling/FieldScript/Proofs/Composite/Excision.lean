import FieldScript.Proofs.Composite.Partition
import FieldScript.Proofs.Text.Bytes

/-!
# What excision leaves

Excision walks through the spans with a cursor, and joins the text in front of a span to the text behind it. The spans
may overlap, contain one another or reach beyond the end. What is left are the bytes that lie in none of the spans, each
once and in order (`excise_bytes`).

If the spans are those of bodies, the tokens outside of them are the tokens of the joined text, unless one of them ends
where a body starts and runs into the character that follows (`excise_tokens_iff`). `gluedFields_differ` is a source on
which a type and the field behind its body become one name.

Strategy for the bytes:

* `Source.exists_cut`: a span cuts what is behind the cursor into a part that is kept, a part that goes and a part that
  is still to be walked through. The part that goes lies in the span, and nothing else behind the cursor does.
* `exciseFrom_bytes`: the invariant of the walk. What a cursor leaves are the bytes behind it that lie in none of the
  spans that are left. The bytes in front of the next span lie in none of them, because all later ones start behind it.

Strategy for the tokens:

* `Source.tokensOutside`: the tokens of a source outside of spans. Those of a whole text are those outside of no span.
* `Course.tokensOutside`: on the spans of its bodies, a course passes just these tokens.
* `Course.exciseFrom_token`, `Course.exciseFrom_body`: what a piece leaves of the text.
* `Course.tokens_iff`: piece by piece, the tokens of what is left are those that the course passes, as long as no token
  runs into what is left behind it.
-/

namespace FieldScript

open Text
open Schema (Cursor Lexes)
open Token (Halts halts_nil halts_cons)

/-! ## Bytes -/

/-- An offset that lies in a span. -/
def Span.Covers (s : Span) (i : Nat) : Prop := s.start ≤ i ∧ i < s.stop

instance (s : Span) : DecidablePred s.Covers := fun _ => inferInstanceAs (Decidable (_ ∧ _))

namespace Source

variable {source : Source} {a b n : Nat}

/-- An offset at which a source can be cut, or one beyond the end. -/
def Marks (source : Source) (n : Nat) : Prop := source.Cuts n ∨ source.size < n

theorem Cuts.le (h : source.Cuts n) : n ≤ source.size := by
  obtain ⟨front, back, hchars, rfl⟩ := h
  rw [size, hchars, byteLength_append]
  exact Nat.le_add_right _ _

theorem Cuts.max (ha : source.Cuts a) (hb : source.Cuts b) : source.Cuts (max a b) := by
  rcases Nat.le_total a b with hab | hba
  · rwa [Nat.max_eq_right hab]
  · rwa [Nat.max_eq_left hba]

/-- What lies beyond the end counts as the end. -/
theorem Marks.cuts (h : source.Marks n) : source.Cuts (min n source.size) := by
  rcases h with h | h
  · rwa [Nat.min_eq_left h.le]
  · rw [Nat.min_eq_right (Nat.le_of_lt h)]
    exact ⟨source.chars, [], by simp, rfl⟩

/-- A span cuts what is behind an offset into three parts: what is in front of the span, what lies in it, and what is
behind both the offset and the span. -/
theorem exists_cut {front rest : List Char} {span : Span} (hchars : source.chars = front ++ rest)
    (hle : span.start ≤ span.stop) (hstart : source.Marks span.start) (hstop : source.Marks span.stop) :
    ∃ kept gone behind, rest = kept ++ (gone ++ behind) ∧
      byteLength (front ++ kept) = max (byteLength front) (min span.start source.size) ∧
      byteLength (front ++ kept ++ gone) = max (byteLength front) (min span.stop source.size) := by
  have hfront : source.Cuts (byteLength front) := ⟨front, rest, hchars, rfl⟩
  obtain ⟨upTo, rest₁, hfirst, hlength₁⟩ := hfront.max hstart.cuts
  obtain ⟨upTo', behind, hsecond, hlength₂⟩ := hfront.max hstop.cuts
  obtain ⟨kept, rfl, rfl⟩ := exists_between (hchars.symm.trans hfirst) (by omega)
  obtain ⟨gone, rfl, rfl⟩ := exists_between (hfirst.symm.trans hsecond) (by omega)
  exact ⟨kept, gone, behind, rfl, hlength₁, hlength₂⟩

end Source

section Bytes

variable {source : Source} {span : Span} {spans : List Span} {front rest kept gone behind : List Char}

/-- A span leaves what stands in front of it. -/
theorem exciseFrom_cut (hchars : source.chars = front ++ (kept ++ (gone ++ behind)))
    (hkept : byteLength (front ++ kept) = max (byteLength front) (min span.start source.size))
    (hgone : byteLength (front ++ kept ++ gone) = max (byteLength front) (min span.stop source.size)) :
    exciseFrom source.chars (byteLength front) (span :: spans) =
      kept ++ exciseFrom source.chars (byteLength (front ++ kept ++ gone)) spans := by
  rw [hgone, exciseFrom]
  rw [byteLength_append] at hkept
  congr 1
  by_cases hlt : byteLength front < min span.start source.size
  · have hstart : min span.start source.size = byteLength front + byteLength kept := by omega
    rw [Source.size] at hlt hstart
    rw [if_pos hlt, hstart, hchars]
    exact slice_between front kept _
  · have hempty : kept = [] := by
      by_contra hne
      have hpos := byteLength_pos hne
      omega
    rw [Source.size] at hlt
    rw [if_neg hlt, hempty]

/-- What a cursor leaves are the bytes behind it that lie in none of the spans. -/
theorem exciseFrom_bytes (hordered : spans.Pairwise fun a b => a.start ≤ b.start)
    (hspans : ∀ span ∈ spans, span.start ≤ span.stop ∧ source.Marks span.start ∧ source.Marks span.stop)
    (hchars : source.chars = front ++ rest) :
    bytes (exciseFrom source.chars (byteLength front) spans) =
      bytesWhere (fun i => ∀ span ∈ spans, ¬ span.Covers i) (byteLength front) (bytes rest) := by
  -- by induction on the spans that are left, for all places of the cursor
  induction spans generalizing front rest with
  | nil =>
      have hrest : slice (byteLength front) (byteLength source.chars) source.chars = rest := by
        have hbetween := slice_between front rest []
        rwa [List.append_nil, ← byteLength_append, ← hchars] at hbetween
      rw [exciseFrom, hrest, bytesWhere_of_forall fun _ _ _ => by simp]
  | cons span spans ih =>
      obtain ⟨hahead, hordered⟩ := List.pairwise_cons.1 hordered
      obtain ⟨⟨hle, hstart, hstop⟩, hspans⟩ := List.forall_mem_cons.1 hspans
      obtain ⟨kept, gone, behind, rfl, hkept, hgone⟩ := Source.exists_cut hchars hle hstart hstop
      have hchars' : source.chars = front ++ kept ++ gone ++ behind := by simp [hchars]
      have hsize : source.size = byteLength (front ++ kept ++ gone) + byteLength behind := by
        rw [Source.size, hchars', byteLength_append _ behind]
      -- what is kept stands in front of this span, and so in front of all the others
      have hfirst : bytesWhere (fun i => ∀ s ∈ span :: spans, ¬ s.Covers i) (byteLength front) (bytes kept) =
          bytes kept := by
        refine bytesWhere_of_forall fun i _ hlt => ?_
        rw [length_bytes, ← byteLength_append] at hlt
        have hbefore : i < span.start := by omega
        refine List.forall_mem_cons.2 ⟨fun hcovers => ?_, fun s hs hcovers => ?_⟩
        · exact Nat.not_le_of_lt hbefore hcovers.1
        · exact Nat.not_le_of_lt hbefore (Nat.le_trans (hahead s hs) hcovers.1)
      have hsecond : bytesWhere (fun i => ∀ s ∈ span :: spans, ¬ s.Covers i) (byteLength (front ++ kept))
          (bytes gone) = [] := by
        refine bytesWhere_of_forall_not fun i hlow hlt hnone => ?_
        rw [length_bytes, ← byteLength_append] at hlt
        exact hnone span List.mem_cons_self ⟨by omega, by omega⟩
      have hthird : bytesWhere (fun i => ∀ s ∈ span :: spans, ¬ s.Covers i) (byteLength (front ++ kept ++ gone))
          (bytes behind) =
          bytesWhere (fun i => ∀ s ∈ spans, ¬ s.Covers i) (byteLength (front ++ kept ++ gone)) (bytes behind) := by
        refine bytesWhere_congr fun i hlow hlt => ?_
        rw [length_bytes] at hlt
        have houtside : ¬ span.Covers i := by
          rintro ⟨_, hstop⟩
          omega
        rw [List.forall_mem_cons, and_iff_right houtside]
      rw [exciseFrom_cut hchars hkept hgone, bytes_append, ih hordered hspans hchars', bytes_append, bytes_append,
        bytesWhere_append, bytesWhere_append, length_bytes, length_bytes, ← byteLength_append, ← byteLength_append,
        hfirst, hsecond, hthird, List.nil_append]

/-- **Excision leaves the bytes that lie in no span**, each once and in their order. The spans are ordered by their
starts, but may overlap, touch, contain one another, be empty, or reach beyond the end. -/
theorem excise_bytes (hordered : spans.Pairwise fun a b => a.start ≤ b.start)
    (hspans : ∀ span ∈ spans, span.start ≤ span.stop ∧ source.Marks span.start ∧ source.Marks span.stop) :
    bytes (excise source.chars spans) =
      ((bytes source.chars).zipIdx.filter fun (_, i) => ∀ span ∈ spans, ¬ span.Covers i).map (·.1) :=
  exciseFrom_bytes hordered hspans (List.nil_append source.chars).symm

end Bytes

/-- Eleven bytes, of which the second and third and the fifth to seventh are one character each. -/
def wideText : Source := .ofString "aéb€cdef"

/-- Spans that overlap, contain one another, touch, are empty or reach beyond the end. -/
theorem wideText_excise :
    let spans : List Span := [⟨0, 0⟩, ⟨1, 4⟩, ⟨3, 7⟩, ⟨4, 4⟩, ⟨7, 8⟩, ⟨10, 12⟩, ⟨20, 30⟩]
    (spans.Pairwise fun a b => a.start ≤ b.start) ∧
      (∀ span ∈ spans, span.start ≤ span.stop ∧ wideText.Marks span.start ∧ wideText.Marks span.stop) ∧
      bytes (excise wideText.chars spans) = bytes ['a', 'd', 'e'] := by
  intro spans
  have hordered : spans.Pairwise fun a b => a.start ≤ b.start := by decide
  have hcut : ∀ front back, wideText.chars = front ++ back → wideText.Marks (byteLength front) :=
    fun front back hchars => .inl ⟨front, back, hchars, rfl⟩
  have hbeyond : ∀ n, 11 < n → wideText.Marks n := fun n hn => .inr hn
  have h0 := hcut [] _ rfl
  have h1 := hcut ['a'] _ rfl
  have h3 := hcut ['a', 'é'] _ rfl
  have h4 := hcut ['a', 'é', 'b'] _ rfl
  have h7 := hcut ['a', 'é', 'b', '€'] _ rfl
  have h8 := hcut ['a', 'é', 'b', '€', 'c'] _ rfl
  have h10 := hcut ['a', 'é', 'b', '€', 'c', 'd', 'e'] _ rfl
  have hspans : ∀ span ∈ spans, span.start ≤ span.stop ∧ wideText.Marks span.start ∧ wideText.Marks span.stop := by
    simp only [spans, List.forall_mem_cons]
    exact ⟨⟨by decide, h0, h0⟩, ⟨by decide, h1, h4⟩, ⟨by decide, h3, h7⟩, ⟨by decide, h4, h4⟩, ⟨by decide, h7, h8⟩,
      ⟨by decide, h10, hbeyond 12 (by decide)⟩, ⟨by decide, hbeyond 20 (by decide), hbeyond 30 (by decide)⟩, nofun⟩
  refine ⟨hordered, hspans, ?_⟩
  rw [excise_bytes hordered hspans]
  decide

/-! ## Tokens -/

/-- The schema tokens of a source from a place on, outside of spans. Where a token would start with a span, the scan goes
on behind the span. The fuel bounds the number of tokens and spans. -/
def Source.tokensFrom (source : Source) : Nat → Cursor → List Span → Schema.Scan (List Schema.Token)
  | 0, _, _ => .ok []
  | fuel + 1, c, spans =>
    match Schema.scanToken c with
    | .error fault => .error fault
    | .ok (t, next) =>
      if t.kind = .eof then .ok []
      else if spans.head?.map (·.start) = some t.span.start then
        source.tokensFrom fuel (Cursor.ofOffset source ((spans.head?.map (·.stop)).getD 0)) spans.tail
      else (source.tokensFrom fuel next spans).map (t :: ·)

/-- The schema tokens of a source outside of spans. -/
def Source.tokensOutside (source : Source) (spans : List Span) : Schema.Scan (List Schema.Token) :=
  source.tokensFrom (source.size + 1) (Cursor.ofOffset source 0) spans

/-- The kinds of the tokens that are found. -/
def kindsOf (ts : Schema.Scan (List Schema.Token)) : Schema.Scan (List Schema.TokenKind) := ts.map (·.map (·.kind))

section Scans

variable {source : Source} {fuel o : Nat} {c next : Cursor} {t : Schema.Token} {spans : List Span}
  {blank w rest : List Char}

theorem tokensFrom_end (h : (Schema.skipIgnored false c.offset c.rest).rest = []) :
    source.tokensFrom (fuel + 1) c spans = .ok [] := by
  obtain ⟨t, next, hscan, hend⟩ := Schema.scanToken_nil h
  simp only [Source.tokensFrom, hscan, hend, if_true]

theorem tokensFrom_token (hscan : Schema.scanToken c = .ok (t, next)) (hend : t.kind ≠ .eof)
    (hspans : ∀ span ∈ spans, t.span.start ≠ span.start) :
    source.tokensFrom (fuel + 1) c spans = (source.tokensFrom fuel next spans).map (t :: ·) := by
  have hhead : ¬ spans.head?.map (·.start) = some t.span.start := by
    cases spans with
    | nil => nofun
    | cons span spans =>
        intro heq
        exact hspans span List.mem_cons_self (Option.some.inj heq).symm
  simp only [Source.tokensFrom, hscan, if_neg hend, if_neg hhead]

theorem tokensFrom_span {span : Span} (hscan : Schema.scanToken c = .ok (t, next)) (hend : t.kind ≠ .eof)
    (hstart : t.span.start = span.start) :
    source.tokensFrom (fuel + 1) c (span :: spans) = source.tokensFrom fuel (Cursor.ofOffset source span.stop) spans := by
  have hhead : (span :: spans).head?.map (·.start) = some t.span.start := congrArg some hstart.symm
  simp only [Source.tokensFrom, hscan, if_neg hend, if_pos hhead]
  rfl

theorem kindsOf_cons {ts : Schema.Scan (List Schema.Token)} {kind : Schema.TokenKind} {kinds : List Schema.TokenKind} :
    kindsOf (ts.map (t :: ·)) = .ok (kind :: kinds) ↔ t.kind = kind ∧ kindsOf ts = .ok kinds := by
  cases ts with
  | error fault => exact ⟨nofun, nofun⟩
  | ok ts => simp [kindsOf, Except.map]

theorem tokensFrom_ignored (h : Schema.Ignored blank) :
    source.tokensFrom fuel ⟨blank ++ rest, o⟩ spans = source.tokensFrom fuel ⟨rest, o + byteLength blank⟩ spans := by
  cases fuel with
  | zero => rfl
  | succ fuel => simp only [Source.tokensFrom, Schema.scanToken_ignored h]

end Scans

/-! ## Tokens of a course -/

theorem Schema.Cursor.Stands.ofOffset_eq {source : Source} {c : Cursor} {front : List Char}
    (h : c.Stands source front) : Cursor.ofOffset source c.offset = c := by
  have hle : c.offset ≤ source.size := by
    rw [h.size_eq]
    omega
  simp only [Cursor.ofOffset, Nat.min_eq_left hle]
  rw [h.offset, h.chars, dropBytes?_append]
  obtain ⟨rest, offset⟩ := c
  rw [Option.getD_some, ← h.offset]

theorem Schema.Lexes.scan {c next : Cursor} {blank w : List Char} {t : Schema.Token} (h : Lexes c blank w t next) :
    Schema.scanToken c = .ok (t, next) := by
  obtain ⟨kind, span⟩ := t
  obtain ⟨cs, o⟩ := c
  obtain ⟨rest, offset⟩ := next
  obtain rfl : cs = blank ++ (w ++ rest) := h.rest
  obtain rfl : span = _ := h.span
  obtain rfl : offset = _ := h.offset
  exact h.again o h.apart

namespace Extract

variable {source : Source} {c next mid after : Cursor} {front blank w inner : List Char} {s : State} {ps : List Piece}
  {t : Schema.Token} {expr : Expr} {fuel o : Nat} {spans : List Span}

/-- The spans of the bodies among pieces. -/
def spansOf (ps : List Piece) : List Span := (bodiesOf ps).map (·.1.span)

/-- The tokens of a course stand behind the place where it starts. -/
theorem Course.start_le (h : Course source c s ps) :
    ∀ t ∈ tokensOf ps, c.offset ≤ t.span.start ∧ t.span.start < t.span.stop := by
  induction h with
  | done _ => nofun
  | @token c next s blank w t ps hlex _ _ ih =>
      have hoffset := hlex.offset
      have hpos : 0 < byteLength w := by
        obtain ⟨x, ws, rfl⟩ := List.exists_cons_of_ne_nil hlex.spells.ne_nil
        have hsize := Char.utf8Size_pos x
        rw [byteLength_cons]
        omega
      intro t' ht'
      rcases List.mem_cons.1 ht' with rfl | ht'
      · rw [hlex.span]
        constructor
        · show c.offset ≤ c.offset + byteLength blank
          omega
        · show c.offset + byteLength blank < c.offset + byteLength blank + byteLength w
          omega
      · obtain ⟨hle, hlt⟩ := ih t' ht'
        exact ⟨by omega, hlt⟩
  | @body c mid after s blank inner t container field expr ps region hlex _ _ _ hcloses _ _ ih =>
      have hopened := hlex.offset
      have hclosed := hcloses.offset
      intro t' ht'
      obtain ⟨hle, hlt⟩ := ih t' ht'
      exact ⟨by omega, hlt⟩

/-- A course passes the tokens outside of its bodies. -/
theorem Course.tokensFrom_eq (h : Course source c s ps) (hc : c.Stands source front) (hfuel : c.rest.length < fuel) :
    source.tokensFrom fuel c (spansOf ps) = .ok (tokensOf ps) := by
  induction h generalizing front fuel with
  | @done c s hend =>
      obtain ⟨n, rfl⟩ : ∃ n, fuel = n + 1 := Nat.exists_eq_add_one.2 (by omega)
      exact tokensFrom_end (hend c.offset)
  | @token c next s blank w t ps hlex _ hrest ih =>
      obtain ⟨n, rfl⟩ : ∃ n, fuel = n + 1 := Nat.exists_eq_add_one.2 (by omega)
      have hshorter := hlex.length_lt
      have hnext := hc.lexes hlex
      have hbehind := hrest.ascending hnext
      have hapart : ∀ span ∈ spansOf ps, t.span.start ≠ span.start := by
        intro span hspan
        have hle := hbehind.start_le hspan
        have hlt := (Course.token hlex ‹_› hrest).start_le t List.mem_cons_self
        have hstop : next.offset = t.span.stop := by rw [hlex.span, hlex.offset]
        omega
      rw [show spansOf (.token blank w t :: ps) = spansOf ps from rfl, tokensFrom_token hlex.scan hlex.spells.ne_eof hapart,
        ih hnext (by omega)]
      rfl
  | @body c mid after s blank inner t container field expr ps region hlex _ _ _ hcloses hregion _ ih =>
      obtain ⟨n, rfl⟩ : ∃ n, fuel = n + 1 := Nat.exists_eq_add_one.2 (by omega)
      have hshorter := hlex.length_lt
      have hafter := hcloses.stands (hc.lexes hlex)
      have hshorter' : after.rest.length < mid.rest.length := by
        rw [hcloses.rest, List.length_append, List.length_cons]
        omega
      have hstart : t.span.start = region.span.start := by rw [hlex.span, hregion]
      have hstop : region.span.stop = after.offset := by rw [hregion]
      show source.tokensFrom (n + 1) c (region.span :: spansOf ps) = _
      rw [tokensFrom_span hlex.scan hlex.spells.ne_eof hstart, hstop, hafter.ofOffset_eq, ih hafter (by omega)]
      rfl

/-- An extraction that succeeds: its regions are the bodies of a course, and the tokens outside of them are those that the
course passes. -/
theorem extract_tokensOutside {x : Extraction} (h : extract source = .ok x) :
    ∃ ps, Course source (Cursor.ofOffset source 0) .first ps ∧ x.regions = (bodiesOf ps).map (·.1) ∧
      x.spans = spansOf ps ∧ source.tokensOutside x.spans = .ok (tokensOf ps) := by
  obtain ⟨ps, hcourse, rfl⟩ := extract_course h
  have hstart := Schema.Cursor.Stands.start source
  have hregions : (Extraction.ofList (bodiesOf ps)).regions = (bodiesOf ps).map (·.1) := Extraction.ofList_regions _
  have hspans : (Extraction.ofList (bodiesOf ps)).spans = spansOf ps := by
    rw [Extraction.spans, hregions, List.map_map]
    rfl
  refine ⟨ps, hcourse, hregions, hspans, ?_⟩
  have htokens := hcourse.tokensFrom_eq hstart (Nat.lt_succ_of_le hstart.length_le_size)
  rw [← hspans] at htokens
  exact htokens

/-! ## What is left of a text -/

/-- A span leaves what stands in front of it. -/
theorem exciseFrom_cons {lo : Nat} {span : Span} (h : Ascending lo (span :: spans) source.size) :
    exciseFrom source.chars lo (span :: spans) =
      slice lo span.start source.chars ++ exciseFrom source.chars span.stop spans := by
  obtain ⟨hstart, hnonempty, hrest⟩ := h
  have hle := hrest.le
  have hstart' : min span.start (byteLength source.chars) = span.start := by
    rw [← Source.size]
    omega
  have hstop' : max lo (min span.stop (byteLength source.chars)) = span.stop := by
    rw [← Source.size]
    omega
  rw [exciseFrom, hstart', hstop']
  by_cases hlt : lo < span.start
  · rw [if_pos hlt]
  · obtain rfl : lo = span.start := by omega
    rw [if_neg hlt, slice_self]

/-- A text that is not cut is left. -/
theorem exciseFrom_kept (hc : c.Stands source front) (hnext : next.Stands source (front ++ w))
    (hspans : Ascending next.offset spans source.size) (hcuts : ∀ span ∈ spans, source.Cuts span.start) :
    exciseFrom source.chars c.offset spans = w ++ exciseFrom source.chars next.offset spans := by
  have hoffset : next.offset = c.offset + byteLength w := by rw [hnext.offset, byteLength_append, hc.offset]
  have hcut : source.Cuts c.offset := ⟨front, c.rest, hc.chars, hc.offset.symm⟩
  have hcut' : source.Cuts next.offset := ⟨front ++ w, next.rest, hnext.chars, hnext.offset.symm⟩
  have hkept : slice c.offset next.offset source.chars = w := by
    rw [hoffset, hnext.chars, List.append_assoc, hc.offset]
    exact slice_between front w next.rest
  cases spans with
  | nil =>
      have hsize : source.Cuts source.size := ⟨source.chars, [], by simp, rfl⟩
      have hparts := slice_append hcut hcut' hsize (by omega) hspans
      rw [hkept] at hparts
      exact hparts.symm
  | cons span spans =>
      have hbefore : Ascending c.offset (span :: spans) source.size := hspans.mono (by omega)
      have hparts := slice_append hcut hcut' (hcuts span List.mem_cons_self) (by omega) hspans.1
      rw [exciseFrom_cons hbefore, exciseFrom_cons hspans, ← hparts, hkept, List.append_assoc]

theorem Course.cuts (h : Course source c s ps) (hc : c.Stands source front) :
    ∀ span ∈ spansOf ps, source.Cuts span.start := by
  intro span hspan
  obtain ⟨p, hp, rfl⟩ := List.mem_map.1 hspan
  exact (h.encloses hc p hp).cuts.1

/-- What is left of a source from a place on. -/
abbrev left (source : Source) (c : Cursor) (ps : List Piece) : List Char := exciseFrom source.chars c.offset (spansOf ps)

theorem left_nil (hc : c.Stands source front) : left source c [] = c.rest := by
  have hkept := slice_between front c.rest []
  rw [List.append_nil, ← hc.chars, ← hc.offset, ← hc.size_eq] at hkept
  exact hkept

theorem left_token (hc : c.Stands source front) (hlex : Lexes c blank w t next) (hrest : Course source next s ps) :
    left source c (.token blank w t :: ps) = blank ++ (w ++ left source next ps) := by
  have hnext := hc.lexes hlex
  rw [← List.append_assoc]
  exact exciseFrom_kept hc hnext (hrest.ascending hnext) (hrest.cuts hnext)

theorem left_body {region : Region} {text : List Char} (hc : c.Stands source front) (hlex : Lexes c blank ['{'] t mid)
    (hcloses : Closes source mid inner expr after) (hrest : Course source after s ps)
    (hspan : region.span = ⟨c.offset + byteLength blank, after.offset⟩) :
    left source c (.body blank text region expr :: ps) = blank ++ left source after ps := by
  have hopened := hlex.offset
  have hclosed := hcloses.offset
  have hafter := hcloses.stands (hc.lexes hlex)
  have hspans : Ascending c.offset (region.span :: spansOf ps) source.size := by
    refine ⟨?_, ?_, ?_⟩
    · rw [hspan]
      show c.offset ≤ c.offset + byteLength blank
      omega
    · rw [hspan]
      show c.offset + byteLength blank < after.offset
      omega
    · rw [hspan]
      exact hrest.ascending hafter
  have hkept : slice c.offset region.span.start source.chars = blank := by
    rw [hspan, hc.chars, hlex.rest, hc.offset]
    exact slice_between front blank _
  show exciseFrom source.chars c.offset (region.span :: spansOf ps) = _
  rw [exciseFrom_cons hspans, hkept, hspan]

/-! ## Tokens of what is left -/

/-- No token that ends where a span starts runs into what is left behind the span. -/
def Apart (source : Source) (ts : List Schema.Token) (spans : List Span) : Prop :=
  ∀ t ∈ ts, ∀ front span back, spans = front ++ span :: back → t.span.stop = span.start →
    Halts t.kind.runsInto (exciseFrom source.chars span.stop back)

/-- A text with a start in common is run into in the same way. -/
theorem halts_append_iff {p : Char → Bool} {a b b' : List Char} (ha : a ≠ []) : Halts p (a ++ b) ↔ Halts p (a ++ b') := by
  obtain ⟨x, xs, rfl⟩ := List.exists_cons_of_ne_nil ha
  rw [List.cons_append, List.cons_append, halts_cons, halts_cons]

/-- Whether a token runs into what is left behind it is decided by a body that starts where it ends: in front of anything
else it has not run into what follows in the source. -/
theorem Course.halts_left_iff (hlex : Lexes c blank w t next) (hnext : next.Stands source front)
    (h : Course source next s ps) :
    Halts t.kind.runsInto (left source next ps) ↔ ∀ before span back, spansOf ps = before ++ span :: back →
      t.span.stop = span.start → Halts t.kind.runsInto (exciseFrom source.chars span.stop back) := by
  have hstop : t.span.stop = next.offset := by rw [hlex.span, hlex.offset]
  have hspans := h.ascending hnext
  constructor
  · intro hhalts before span back heq hstart
    rw [hstop] at hstart
    change Ascending next.offset (spansOf ps) source.size at hspans
    -- Nothing fits between the token and a span that starts at its end.
    cases before with
    | nil =>
        rw [heq, List.nil_append] at hspans
        rw [left, heq, List.nil_append, exciseFrom_cons hspans, hstart, slice_self, List.nil_append] at hhalts
        exact hhalts
    | cons span' before =>
        rw [heq, List.cons_append] at hspans
        obtain ⟨hle, hlt, hbehind⟩ := hspans
        have hle' := hbehind.start_le (s := span) (by simp)
        omega
  · intro hseam
    have hapart := hlex.apart
    cases h with
    | done _ =>
        rw [left_nil hnext]
        exact hapart
    | @token _ _ _ blank' w' _ _ hlex' _ hrest' =>
        have hne : blank' ++ w' ≠ [] := List.append_ne_nil_of_right_ne_nil _ hlex'.spells.ne_nil
        rw [left_token hnext hlex' hrest', ← List.append_assoc]
        rw [hlex'.rest, ← List.append_assoc] at hapart
        exact (halts_append_iff hne).1 hapart
    | @body _ mid after _ blank' inner _ container field expr ps region hlex' _ _ _ hcloses hregion hrest' =>
        have hspan : region.span = ⟨next.offset + byteLength blank', after.offset⟩ := by rw [hregion]
        rw [left_body hnext hlex' hcloses hrest' hspan]
        by_cases hblank : blank' = []
        · subst hblank
          have hbody := hseam [] region.span (spansOf ps) rfl (by rw [hspan, hstop]; rfl)
          rw [hspan] at hbody
          exact hbody
        · rw [hlex'.rest] at hapart
          exact (halts_append_iff hblank).1 hapart

/-- A body does not stand behind the tokens that follow it. -/
theorem Course.apart_cons {span : Span} (h : Course source after s ps) (hspan : span.start ≤ after.offset) :
    Apart source (tokensOf ps) (span :: spansOf ps) ↔ Apart source (tokensOf ps) (spansOf ps) := by
  constructor
  · intro hapart t ht before span' back heq
    exact hapart t ht (span :: before) span' back (by rw [heq, List.cons_append])
  · intro hapart t ht before span' back heq hstop
    obtain ⟨hle, hlt⟩ := h.start_le t ht
    cases before with
    | nil =>
        obtain ⟨rfl, -⟩ := List.cons.inj heq
        omega
    | cons _ before => exact hapart t ht before span' back (List.cons.inj heq).2 hstop

/-- The tokens of what is left are those that a course passes if and only if none of them runs into what is left behind
it. -/
theorem Course.tokens_iff (h : Course source c s ps) (hc : c.Stands source front) (other : Source)
    (hfuel : (left source c ps).length < fuel) :
    kindsOf (other.tokensFrom fuel ⟨left source c ps, o⟩ []) = .ok ((tokensOf ps).map (·.kind)) ↔
      Apart source (tokensOf ps) (spansOf ps) := by
  induction h generalizing front fuel o with
  | @done c s hend =>
      obtain ⟨n, rfl⟩ : ∃ n, fuel = n + 1 := Nat.exists_eq_add_one.2 (by omega)
      refine iff_of_true ?_ nofun
      rw [left_nil hc, tokensFrom_end (hend o)]
      rfl
  | @token c next s blank w t ps hlex hopens hrest ih =>
      obtain ⟨n, rfl⟩ : ∃ n, fuel = n + 1 := Nat.exists_eq_add_one.2 (by omega)
      have hnext := hc.lexes hlex
      have hpos := List.length_pos_iff.2 hlex.spells.ne_nil
      rw [left_token hc hlex hrest, List.length_append, List.length_append] at hfuel
      have hseam := Course.halts_left_iff hlex hnext hrest
      have hcons : Apart source (tokensOf (.token blank w t :: ps)) (spansOf (.token blank w t :: ps)) ↔
          Halts t.kind.runsInto (left source next ps) ∧ Apart source (tokensOf ps) (spansOf ps) := by
        rw [hseam]
        exact List.forall_mem_cons
      rw [hcons, left_token hc hlex hrest]
      by_cases hhalts : Halts t.kind.runsInto (left source next ps)
      · -- The same token, and the rest by induction.
        have hscan := hlex.again o hhalts
        rw [tokensFrom_token hscan hlex.spells.ne_eof (by simp), and_iff_right hhalts,
          ← @ih _ n (o + byteLength blank + byteLength w) hnext (by omega)]
        exact kindsOf_cons.trans (and_iff_right rfl)
      · refine iff_of_false (fun hkinds => ?_) fun hboth => hhalts hboth.1
        obtain ⟨x, hx, hruns⟩ : ∃ x, (left source next ps).head? = some x ∧ t.kind.runsInto x = true := by
          simpa [Halts] using hhalts
        -- Another token is read, or none.
        cases hscan : Schema.scanToken ⟨blank ++ (w ++ left source next ps), o⟩ with
        | error fault =>
            simp only [Source.tokensFrom, hscan] at hkinds
            cases hkinds
        | ok found =>
            obtain ⟨t', next'⟩ := found
            by_cases hend : t'.kind = .eof
            · simp only [Source.tokensFrom, hscan, if_pos hend] at hkinds
              cases hkinds
            · rw [tokensFrom_token hscan hend (by simp)] at hkinds
              exact hlex.glued hx hruns hscan (kindsOf_cons.1 hkinds).1
  | @body c mid after s blank inner t container field expr ps region hlex _ _ _ hcloses hregion hrest ih =>
      have hafter := hcloses.stands (hc.lexes hlex)
      have hspan : region.span = ⟨c.offset + byteLength blank, after.offset⟩ := by rw [hregion]
      have hopened := hlex.offset
      have hclosed := hcloses.offset
      rw [left_body hc hlex hcloses hrest hspan, List.length_append] at hfuel
      rw [left_body hc hlex hcloses hrest hspan, tokensFrom_ignored hlex.ignored]
      have hbehind : Apart source (tokensOf ps) (region.span :: spansOf ps) ↔ Apart source (tokensOf ps) (spansOf ps) :=
        hrest.apart_cons (by rw [hspan]; show c.offset + byteLength blank ≤ after.offset; omega)
      exact (ih hafter (by omega)).trans hbehind.symm

end Extract

open Extract in
/-- The tokens of what excision leaves are the tokens outside of the regions, if and only if none of these that ends where
a region starts runs into what is left behind the region. -/
theorem excise_tokens_iff {source : Source} {x : Extraction} (h : extract source = .ok x) :
    ∃ ts, source.tokensOutside x.spans = .ok ts ∧
      (kindsOf ((Source.mk (excise source.chars x.spans)).tokensOutside []) = .ok (ts.map (·.kind)) ↔
        Apart source ts x.spans) := by
  obtain ⟨ps, hcourse, -, hspans, htokens⟩ := extract_tokensOutside h
  have hstart := Schema.Cursor.Stands.start source
  have hzero : (Cursor.ofOffset source 0).offset = 0 := by simp [Cursor.ofOffset]
  refine ⟨tokensOf ps, htokens, ?_⟩
  have hleft : left source (Cursor.ofOffset source 0) ps = excise source.chars x.spans := by
    rw [left, hzero, hspans, excise]
  have hcursor : Cursor.ofOffset (Source.mk (excise source.chars x.spans)) 0 = ⟨excise source.chars x.spans, 0⟩ := by
    simp [Cursor.ofOffset]
  have hle := (Schema.Cursor.Stands.start (Source.mk (excise source.chars x.spans))).length_le_size
  rw [hcursor, ← hleft] at hle
  have hiff := hcourse.tokens_iff hstart (o := 0) (Source.mk (excise source.chars x.spans)) (Nat.lt_succ_of_le hle)
  rw [hleft, ← hspans] at hiff
  rw [Source.tokensOutside, hcursor]
  exact hiff

/-- A source in which a blank stands between the body of a field and the next field. -/
def partedFields : Source := .ofString "type Query \x7b a: Int\x7b x \x7d b: Int\x7b y \x7d \x7d"

/-- Both types end where a body starts, and neither runs into what is left behind it. -/
theorem partedFields_apart :
    ∃ x ts, extract partedFields = .ok x ∧ x.spans = [⟨19, 24⟩, ⟨31, 36⟩] ∧ partedFields.tokensOutside x.spans = .ok ts ∧
      19 ∈ ts.map (·.span.stop) ∧ 31 ∈ ts.map (·.span.stop) ∧ Extract.Apart partedFields ts x.spans := by
  obtain ⟨x, hextract, hspans⟩ := Extract.exists_of_run partedFields (f := Extraction.spans)
    (a := [⟨19, 24⟩, ⟨31, 36⟩]) (by decide +kernel)
  obtain ⟨ts, hts, hiff⟩ := excise_tokens_iff hextract
  have hkinds : kindsOf ((Source.mk (excise partedFields.chars x.spans)).tokensOutside []) = .ok (ts.map (·.kind)) := by
    have hsame : kindsOf (partedFields.tokensOutside x.spans) =
        kindsOf ((Source.mk (excise partedFields.chars x.spans)).tokensOutside []) := by
      rw [hspans]
      decide +kernel
    rw [← hsame, hts]
    rfl
  have hstops : (partedFields.tokensOutside x.spans).map (·.map (·.span.stop)) =
      .ok [4, 10, 12, 14, 15, 19, 26, 27, 31, 38] := by
    rw [hspans]
    decide +kernel
  rw [hts] at hstops
  have hends : ts.map (·.span.stop) = [4, 10, 12, 14, 15, 19, 26, 27, 31, 38] := Except.ok.inj hstops
  refine ⟨x, ts, hextract, hspans, hts, ?_, ?_, hiff.1 hkinds⟩
  · rw [hends]
    decide
  · rw [hends]
    decide

/-- A source in which a field follows right behind the body of another one. -/
def gluedFields : Source := .ofString "type Query \x7b a: Int\x7b x \x7db: Int\x7b y \x7d \x7d"

/-- Excision makes one name of the type in front of a body and of the field behind it. -/
theorem gluedFields_differ :
    ∃ x, extract gluedFields = .ok x ∧
      kindsOf ((Source.mk (excise gluedFields.chars x.spans)).tokensOutside []) ≠ kindsOf (gluedFields.tokensOutside x.spans) ∧
      kindsOf ((Source.mk (excise gluedFields.chars x.spans)).tokensOutside []) =
        .ok [.name "type", .name "Query", .openBrace, .name "a", .colon, .name "Intb", .colon, .name "Int", .closeBrace] := by
  obtain ⟨x, hextract, hspans⟩ := Extract.exists_of_run gluedFields (f := Extraction.spans)
    (a := [⟨19, 24⟩, ⟨30, 35⟩]) (by decide +kernel)
  refine ⟨x, hextract, ?_, ?_⟩
  · rw [hspans]
    decide +kernel
  · rw [hspans]
    decide +kernel

end FieldScript
