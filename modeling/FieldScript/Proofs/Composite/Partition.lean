import Mathlib.Data.List.Induction
import FieldScript.Proofs.Composite.Courses

/-!
# Extraction and layout partition a source

The regions of a source follow one another and lie inside it. Each is the text between a pair of braces, with the
expression that was read strictly between them. The layout fills the gaps, so that its parts cover the source.

Strategy:

* `Course.ascending`: the walk only goes forward, so that the regions ascend.
* `add_keys`, `add_body?`: regions are added one by one; a field keeps the place of its first region and has the
  expression of its last.
* `Layout.partsFrom_tiles`, `exciseFrom_eq`, `Layout.partsFrom_text`: what follows for the layout from ascending spans.

The result is `extract_partitions`.
-/

namespace FieldScript

open Text
open Schema (Cursor)

/-! ## Spans that ascend -/

/-- Spans that are not empty and follow one another between two offsets. -/
def Ascending : Nat → List Span → Nat → Prop
  | lo, [], hi => lo ≤ hi
  | lo, s :: spans, hi => lo ≤ s.start ∧ s.start < s.stop ∧ Ascending s.stop spans hi

namespace Ascending

variable {lo lo' hi : Nat} {s : Span} {spans : List Span}

theorem mono (h : Ascending lo spans hi) (hle : lo' ≤ lo) : Ascending lo' spans hi := by
  cases spans with
  | nil => exact Nat.le_trans hle h
  | cons s spans => exact ⟨Nat.le_trans hle h.1, h.2⟩

theorem le (h : Ascending lo spans hi) : lo ≤ hi := by
  induction spans generalizing lo with
  | nil => exact h
  | cons s spans ih =>
      obtain ⟨hstart, hnonempty, hrest⟩ := h
      have hle := ih hrest
      omega

theorem start_le (h : Ascending lo spans hi) (hs : s ∈ spans) : lo ≤ s.start := by
  induction spans generalizing lo with
  | nil => cases hs
  | cons s' spans ih =>
      obtain ⟨hstart, hnonempty, hrest⟩ := h
      rcases List.mem_cons.1 hs with rfl | hs
      · exact hstart
      · have hle := ih hrest hs
        omega

theorem pairwise (h : Ascending lo spans hi) : spans.Pairwise fun a b => a.stop ≤ b.start := by
  induction spans generalizing lo with
  | nil => exact .nil
  | cons s spans ih => exact .cons (fun b hb => start_le h.2.2 hb) (ih h.2.2)

end Ascending

/-! ## Regions -/

/-- The field that a region belongs to. -/
def Region.key (r : Region) : Container × String := (r.container, r.field)

/-- The field that a body belongs to. -/
def FieldBody.key (b : FieldBody) : Container × String := (b.container, b.field)

/-- A region that is the text between two braces, and the expression that is read behind the first of them. The span of
the expression lies strictly between the braces. -/
structure Region.Encloses (source : Source) (r : Region) (e : Expr) : Prop where
  text : ∃ front inner back, source.chars = front ++ ('{' :: (inner ++ '}' :: back)) ∧
    r.span = ⟨byteLength front, byteLength front + 1 + byteLength inner + 1⟩
  parsed : ∃ stop, source.exprAt (r.span.start + 1) = .ok ⟨e, stop⟩
  within : e.span.Within (r.span.start + 1) (r.span.stop - 1)

namespace Extract

variable {source : Source} {c : Cursor} {front : List Char} {s : State} {ps : List Piece}

theorem Course.encloses (h : Course source c s ps) (hc : c.Stands source front) :
    ∀ p ∈ bodiesOf ps, p.1.Encloses source p.2 := by
  induction h generalizing front with
  | done _ => nofun
  | token hlex _ _ ih => exact ih (hc.lexes hlex)
  | @body c mid after s blank inner t container field expr ps region hlex _ _ _ hcloses hregion _ ih =>
      have hmid := hc.lexes hlex
      have hopened : mid.offset = c.offset + byteLength blank + 1 := hlex.offset
      have hclosed := hcloses.offset
      intro p hp
      rcases List.mem_cons.1 hp with rfl | hp
      · subst hregion
        refine ⟨⟨front ++ blank, inner, after.rest, ?_, ?_⟩, ?_, ?_⟩
        · rw [hmid.chars, hcloses.rest]
          simp
        · rw [hc.offset] at hopened ⊢
          rw [hclosed, hopened, byteLength_append]
        · rw [← hopened]
          exact hcloses.parsed
        · refine hcloses.within.mono (Nat.le_of_eq hopened.symm) ?_
          show mid.offset + byteLength inner ≤ after.offset - 1
          omega
      · exact ih (hcloses.stands hmid) p hp

theorem Course.ascending (h : Course source c s ps) (hc : c.Stands source front) :
    Ascending c.offset ((bodiesOf ps).map (·.1.span)) source.size := by
  induction h generalizing front with
  | done _ =>
      have hsize := hc.size_eq
      show _ ≤ _
      omega
  | token hlex _ _ ih =>
      have hoffset := hlex.offset
      exact (ih (hc.lexes hlex)).mono (by omega)
  | @body c mid after s blank inner t container field expr ps region hlex _ _ _ hcloses hregion _ ih =>
      have hopened := hlex.offset
      have hclosed := hcloses.offset
      subst hregion
      refine ⟨Nat.le_add_right _ _, ?_, ih (hcloses.stands (hc.lexes hlex))⟩
      show c.offset + byteLength blank < after.offset
      omega

end Extract

/-! ## Bodies -/

namespace Extraction

variable {found : List (Region × Expr)}

/-- Regions and their expressions, added one by one. -/
def ofList (found : List (Region × Expr)) : Extraction := found.foldl (fun x p => x.add p.1 p.2) .empty

theorem ofList_append (found : List (Region × Expr)) (p : Region × Expr) :
    ofList (found ++ [p]) = (ofList found).add p.1 p.2 := by
  simp [ofList]

theorem ofList_regions (found : List (Region × Expr)) : (ofList found).regions = found.map Prod.fst := by
  induction found using List.reverseRecOn with
  | nil => rfl
  | append_singleton found p ih => rw [ofList_append, add, ih, List.map_append, List.map_singleton]

/-- A new field comes last, a field that has a body keeps its place. -/
theorem setBody_keys (b : FieldBody) (bodies : List FieldBody) :
    (setBody b bodies).map FieldBody.key =
      if b.key ∈ bodies.map FieldBody.key then bodies.map FieldBody.key else bodies.map FieldBody.key ++ [b.key] := by
  induction bodies with
  | nil => rfl
  | cons b' bodies ih =>
      unfold setBody
      by_cases hsame : b'.container = b.container ∧ b'.field = b.field
      · have hkey : b'.key = b.key := Prod.ext hsame.1 hsame.2
        rw [if_pos hsame, List.map_cons, List.map_cons, hkey, if_pos List.mem_cons_self]
      · have hkey : b.key ≠ b'.key := by
          intro heq
          exact hsame ⟨(congrArg Prod.fst heq).symm, (congrArg Prod.snd heq).symm⟩
        rw [if_neg hsame, List.map_cons, ih, List.map_cons]
        by_cases hmem : b.key ∈ bodies.map FieldBody.key
        · rw [if_pos hmem, if_pos (List.mem_cons_of_mem _ hmem)]
        · rw [if_neg hmem, if_neg (by simp [hkey, hmem]), List.cons_append]

/-- There is one body for each field, in the order of the fields' first regions. -/
theorem ofList_keys (found : List (Region × Expr)) :
    (ofList found).bodies.map FieldBody.key = (found.map fun p => p.1.key).eraseDups := by
  induction found using List.reverseRecOn with
  | nil => rfl
  | append_singleton found p ih =>
      have hkey : (FieldBody.mk p.1.container p.1.field p.2).key = p.1.key := rfl
      rw [ofList_append, add, setBody_keys, ih, hkey, List.map_append, List.map_singleton, List.eraseDups_append]
      by_cases hmem : p.1.key ∈ found.map fun p => p.1.key
      · rw [if_pos (List.mem_eraseDups.2 hmem)]
        simp [List.removeAll, hmem]
      · rw [if_neg (mt List.mem_eraseDups.1 hmem)]
        simp [List.removeAll, hmem, List.eraseDups_cons]

/-- A field has the body that was set last. -/
theorem find?_setBody (b : FieldBody) (bodies : List FieldBody) (container : Container) (field : String) :
    (setBody b bodies).find? (fun b => b.container == container && b.field == field) =
      if b.key = (container, field) then some b
      else bodies.find? fun b => b.container == container && b.field == field := by
  have htest : ∀ b : FieldBody, (b.container == container && b.field == field) = decide (b.key = (container, field)) := by
    intro b
    rw [Bool.eq_iff_iff]
    simp [FieldBody.key]
  induction bodies with
  | nil => simp [setBody, htest]
  | cons b' bodies ih =>
      unfold setBody
      by_cases hsame : b'.container = b.container ∧ b'.field = b.field
      · have hkey : b'.key = b.key := Prod.ext hsame.1 hsame.2
        rw [if_pos hsame, List.find?_cons, List.find?_cons, htest, htest, hkey]
        by_cases hfield : b.key = (container, field) <;> simp [hfield]
      · have hkey : b'.key ≠ b.key := by
          intro heq
          exact hsame ⟨congrArg Prod.fst heq, congrArg Prod.snd heq⟩
        rw [if_neg hsame, List.find?_cons, List.find?_cons, ih, htest]
        by_cases hfield : b.key = (container, field)
        · rw [hfield] at hkey
          simp [hfield, hkey]
        · simp [hfield]

/-- The body of a field is that of its last region. -/
theorem ofList_body? (found : List (Region × Expr)) (container : Container) (field : String) :
    ((ofList found).body? container field).map FieldBody.expr =
      (found.filter fun p => p.1.key = (container, field)).getLast?.map Prod.snd := by
  induction found using List.reverseRecOn with
  | nil => rfl
  | append_singleton found p ih =>
      have hkey : (FieldBody.mk p.1.container p.1.field p.2).key = p.1.key := rfl
      rw [ofList_append, body?, add, find?_setBody, hkey, List.filter_append]
      by_cases hfield : p.1.key = (container, field)
      · simp [hfield]
      · rw [if_neg hfield, List.filter_singleton]
        simpa [hfield, body?] using ih

end Extraction

/-! ## Layouts -/

/-- Parts that follow on one another from an offset up to another one, none of them empty. -/
def Tiles : Nat → List LayoutPart → Nat → Prop
  | lo, [], hi => lo = hi
  | lo, p :: parts, hi => p.span.start = lo ∧ lo < p.span.stop ∧ Tiles p.span.stop parts hi

/-- The text of a part of a source. -/
def LayoutPart.text (p : LayoutPart) (source : Source) : List Char := slice p.span.start p.span.stop source.chars

/-- An offset at which a source can be cut. -/
def Source.Cuts (source : Source) (n : Nat) : Prop := ∃ front back, source.chars = front ++ back ∧ byteLength front = n

theorem Region.Encloses.cuts {source : Source} {r : Region} {e : Expr} (h : r.Encloses source e) :
    source.Cuts r.span.start ∧ source.Cuts r.span.stop := by
  obtain ⟨front, inner, back, hchars, hspan⟩ := h.text
  rw [hspan]
  refine ⟨⟨front, _, hchars, rfl⟩, front ++ ('{' :: (inner ++ ['}'])), back, ?_, ?_⟩
  · rw [hchars]
    simp
  · have hbraces : '{'.utf8Size = 1 ∧ '}'.utf8Size = 1 := ⟨rfl, rfl⟩
    simp only [byteLength_append, byteLength_cons, byteLength_nil, hbraces]
    omega

/-- A part of a text between two others. -/
theorem slice_between (front m back : List Char) :
    slice (byteLength front) (byteLength front + byteLength m) (front ++ (m ++ back)) = m := by
  rw [slice, slice?, if_pos (Nat.le_add_right _ _), dropBytes?_append, Option.bind_some, Nat.add_sub_cancel_left,
    takeBytes?_append, Option.getD_some]

/-- Two parts one behind the other. -/
theorem slice_append {source : Source} {a b c : Nat} (ha : source.Cuts a) (hb : source.Cuts b) (hc : source.Cuts c)
    (hab : a ≤ b) (hbc : b ≤ c) :
    slice a b source.chars ++ slice b c source.chars = slice a c source.chars := by
  obtain ⟨fa, ba, ha, rfl⟩ := ha
  obtain ⟨fb, bb, hb, rfl⟩ := hb
  obtain ⟨fc, bc, hc, rfl⟩ := hc
  obtain ⟨m, rfl, rfl⟩ := exists_between (ha.symm.trans hb) hab
  obtain ⟨m', rfl, rfl⟩ := exists_between (hb.symm.trans hc) hbc
  have hfirst : slice (byteLength fa) (byteLength (fa ++ m)) source.chars = m := by
    rw [ha, byteLength_append]
    exact slice_between fa m (m' ++ bc)
  have hsecond : slice (byteLength (fa ++ m)) (byteLength (fa ++ m ++ m')) source.chars = m' := by
    rw [hb, byteLength_append (fa ++ m)]
    exact slice_between (fa ++ m) m' bc
  have hboth : slice (byteLength fa) (byteLength (fa ++ m ++ m')) source.chars = m ++ m' := by
    rw [ha, ← List.append_assoc m, List.append_assoc fa, byteLength_append fa]
    exact slice_between fa (m ++ m') bc
  rw [hfirst, hsecond, hboth]

theorem slice_self (n : Nat) (text : List Char) : slice n n text = [] := by
  rw [slice, slice?, if_pos (Nat.le_refl n), Nat.sub_self]
  cases dropBytes? n text <;> simp

namespace Layout

variable {source : Source} {lo : Nat} {spans : List Span}

theorem partsFrom_tiles {size : Nat} (h : Ascending lo spans size) : Tiles lo (partsFrom size lo spans) size := by
  induction spans generalizing lo with
  | nil =>
      have hle : lo ≤ size := h
      unfold partsFrom
      by_cases hlt : lo < size
      · rw [if_pos hlt]
        exact ⟨rfl, hlt, rfl⟩
      · rw [if_neg hlt]
        show lo = size
        omega
  | cons s spans ih =>
      obtain ⟨hstart, hnonempty, hrest⟩ := h
      unfold partsFrom
      by_cases hlt : lo < s.start
      · rw [if_pos hlt]
        exact ⟨rfl, hlt, rfl, hnonempty, ih hrest⟩
      · have heq : s.start = lo := by omega
        rw [if_neg hlt]
        exact ⟨heq, heq ▸ hnonempty, ih hrest⟩

/-- The parts that are bodies are the spans. -/
theorem partsFrom_expressions (size : Nat) :
    ((partsFrom size lo spans).filter (·.kind = .expression)).map (·.span) = spans := by
  induction spans generalizing lo with
  | nil =>
      unfold partsFrom
      split <;> rfl
  | cons s spans ih =>
      unfold partsFrom
      split <;> simp [ih]

/-- The other parts are what is left once the spans are cut out. -/
theorem partsFrom_declarative (h : Ascending lo spans source.size) :
    exciseFrom source.chars lo spans =
      ((partsFrom source.size lo spans).filter (·.kind = .declarative)).flatMap (·.text source) := by
  induction spans generalizing lo with
  | nil =>
      have hle : lo ≤ source.size := h
      unfold partsFrom exciseFrom
      by_cases hlt : lo < source.size
      · rw [if_pos hlt]
        simp [LayoutPart.text, Source.size]
      · obtain rfl : lo = source.size := by omega
        rw [if_neg hlt]
        exact slice_self _ _
  | cons s spans ih =>
      obtain ⟨hstart, hnonempty, hrest⟩ := h
      have hle := hrest.le
      have hstart' : min s.start source.size = s.start := by omega
      have hstop' : max lo (min s.stop source.size) = s.stop := by omega
      rw [Source.size] at hstart' hstop'
      unfold partsFrom exciseFrom
      dsimp only
      rw [hstart', hstop', ih hrest]
      by_cases hlt : lo < s.start <;> simp [hlt, LayoutPart.text]

/-- The texts of the parts, one behind another, are what is left of the source. -/
theorem partsFrom_text (h : Ascending lo spans source.size) (hlo : source.Cuts lo)
    (hspans : ∀ s ∈ spans, source.Cuts s.start ∧ source.Cuts s.stop) :
    (partsFrom source.size lo spans).flatMap (·.text source) = slice lo source.size source.chars := by
  induction spans generalizing lo with
  | nil =>
      have hle : lo ≤ source.size := h
      unfold partsFrom
      by_cases hlt : lo < source.size
      · rw [if_pos hlt]
        simp [LayoutPart.text]
      · obtain rfl : lo = source.size := by omega
        rw [if_neg hlt]
        exact (slice_self _ _).symm
  | cons s spans ih =>
      obtain ⟨hstart, hnonempty, hrest⟩ := h
      obtain ⟨hcut, hcut'⟩ := hspans s List.mem_cons_self
      have hsize : source.Cuts source.size := ⟨source.chars, [], by simp, rfl⟩
      have hbehind := ih hrest hcut' fun s' hs' => hspans s' (List.mem_cons_of_mem _ hs')
      have hbody := slice_append hcut hcut' hsize (Nat.le_of_lt hnonempty) hrest.le
      unfold partsFrom
      by_cases hlt : lo < s.start
      · have hfront := slice_append hlo hcut hsize hstart (by have := hrest.le; omega)
        rw [if_pos hlt, List.singleton_append, List.flatMap_cons, List.flatMap_cons, hbehind, ← hfront, ← hbody]
        rfl
      · have heq : s.start = lo := by omega
        rw [if_neg hlt, List.nil_append, List.flatMap_cons, hbehind, ← heq, ← hbody]
        rfl

end Layout

/-! ## The partition -/

/-- What an extraction and the layout make of a source. The regions follow one another, and each encloses the expression
that is read from it. There is one body for each field, in the order of the fields' first regions, with the expression of
the last region. The parts of the layout cover the source; the declarative ones make up the schema, and the others are
the regions. -/
theorem extract_partitions {source : Source} {x : Extraction} (h : extract source = .ok x) :
    (∃ found : List (Region × Expr), x.regions = found.map Prod.fst ∧ (∀ p ∈ found, p.1.Encloses source p.2) ∧
      x.bodies.map FieldBody.key = (found.map fun p => p.1.key).eraseDups ∧
      ∀ container field, (x.body? container field).map FieldBody.expr =
        (found.filter fun p => p.1.key = (container, field)).getLast?.map Prod.snd) ∧
    x.regions.Pairwise (fun a b => a.span.stop ≤ b.span.start) ∧
    ∃ layout, inspect source = .ok layout ∧ Tiles 0 layout.parts source.size ∧
      layout.parts.flatMap (·.text source) = source.chars ∧
      layout.schemaText = (layout.parts.filter (·.kind = .declarative)).flatMap (·.text source) ∧
      (layout.parts.filter (·.kind = .expression)).map (·.span) = x.regions.map (·.span) := by
  obtain ⟨ps, hcourse, hx⟩ := Extract.extract_course h
  have hstart := Schema.Cursor.Stands.start source
  have hregions : x.regions = (Extract.bodiesOf ps).map Prod.fst := by
    rw [hx]
    exact Extraction.ofList_regions _
  have hspans : x.spans = (Extract.bodiesOf ps).map (·.1.span) := by
    rw [Extraction.spans, hregions, List.map_map]
    rfl
  have hencloses := hcourse.encloses hstart
  have hascending : Ascending 0 x.spans source.size := by
    rw [hspans]
    exact (hcourse.ascending hstart).mono (Nat.zero_le _)
  refine ⟨⟨Extract.bodiesOf ps, hregions, hencloses, ?_, ?_⟩, ?_, ?_⟩
  · rw [hx]
    exact Extraction.ofList_keys _
  · rw [hx]
    exact Extraction.ofList_body? _
  · exact List.pairwise_map.1 hascending.pairwise
  · refine ⟨⟨source, Layout.partsFrom source.size 0 x.spans, excise source.chars x.spans⟩, ?_, ?_, ?_, ?_, ?_⟩
    · rw [inspect, h]
      rfl
    · exact Layout.partsFrom_tiles hascending
    · have hcuts : ∀ s ∈ x.spans, source.Cuts s.start ∧ source.Cuts s.stop := by
        intro s hs
        rw [hspans] at hs
        obtain ⟨p, hp, rfl⟩ := List.mem_map.1 hs
        exact (hencloses p hp).cuts
      rw [Layout.partsFrom_text hascending ⟨[], source.chars, rfl, rfl⟩ hcuts]
      have hwhole := slice_between [] source.chars []
      rwa [byteLength_nil, Nat.zero_add, List.append_nil] at hwhole
    · exact Layout.partsFrom_declarative hascending
    · exact Layout.partsFrom_expressions _

/-- A source in which a field has two bodies, the second right behind the first. -/
def repeatedField : Source := .ofString "type Query \x7b a: Int \x7b x \x7d b: Int \x7b y \x7d\x7b [z] \x7d \x7d"

/-- There are three regions, but only two bodies. -/
theorem repeatedField_partitions :
    ∃ x, extract repeatedField = .ok x ∧ x.regions.map (·.span) = [⟨20, 25⟩, ⟨33, 38⟩, ⟨38, 45⟩] ∧
      x.bodies.map FieldBody.key = [(.query, "a"), (.query, "b")] ∧
      (∃ layout, inspect repeatedField = .ok layout ∧ Tiles 0 layout.parts repeatedField.size) := by
  obtain ⟨x, hextract, hx⟩ := Extract.exists_of_run repeatedField
    (f := fun x => (x.regions.map (·.span), x.bodies.map FieldBody.key))
    (a := ([⟨20, 25⟩, ⟨33, 38⟩, ⟨38, 45⟩], [(.query, "a"), (.query, "b")])) (by decide +kernel)
  obtain ⟨hspans, hkeys⟩ := Prod.mk.inj hx
  obtain ⟨-, -, layout, hlayout, htiles, -⟩ := extract_partitions hextract
  exact ⟨x, hextract, hspans, hkeys, layout, hlayout, htiles⟩

end FieldScript
