import FieldScript.Module
import FieldScript.Proofs.Render.RoundTrip
import Mathlib.Data.List.Chain

/-!
# The mark of a unit that waits

A unit counts as asynchronous if its text has the word `await` with a blank behind it somewhere. The renderer writes this
for every `await` of the block, and it never makes it out of parts of its own: between two parts that end and begin with
letters there is always a mark or a blank. What is left are the parts that an author spells, which are names, literals
and the texts of templates (`Tells.known`).
-/

namespace FieldScript

open Token (Lexeme Piece)
open Token.Piece (chars)
open CompiledUnit (asyncMark)

/-! ## Where the mark stands -/

/-- A character that is not in the mark divides a text. -/
theorem asyncMark_infix_of_notMem {c : Char} (hc : c ∉ asyncMark) {xs ys : List Char} (h : asyncMark <:+: xs ++ c :: ys) :
    asyncMark <:+: xs ∨ asyncMark <:+: ys := by
  have hfront_nil : ∀ v, v <:+ asyncMark → v <+: c :: ys → v = [] := by
    intro v hv hfront
    cases v with
    | nil => rfl
    | cons x v =>
        obtain rfl : x = c := (List.cons_prefix_cons.1 hfront).1
        exact absurd (hv.subset List.mem_cons_self) hc
  rcases List.infix_append_iff.1 h with hinfix | hinfix | ⟨u, v, hsplit, hu, hv⟩
  · exact .inl hinfix
  · rcases List.infix_cons_iff.1 hinfix with hfront | hinfix
    · exact absurd (hfront_nil _ List.suffix_rfl hfront) (by decide)
    · exact .inr hinfix
  · have hnil := hfront_nil v (hsplit ▸ List.suffix_append u v) hv
    rw [hnil, List.append_nil] at hsplit
    exact .inl (hsplit ▸ hu.isInfix)

namespace Token.Piece

/-- The text of one piece. -/
def text : Piece → List Char
  | .blank => [' ']
  | .lexeme l => l.chars

theorem chars_cons (p : Piece) (ps : List Piece) : chars (p :: ps) = p.text ++ chars ps := by
  cases p <;> rfl

/-- A piece that neither begins nor ends with a letter of the mark. -/
def IsHard (p : Piece) : Prop :=
  ∃ c d, p.text.head? = some c ∧ p.text.getLast? = some d ∧ c ∉ "await".toList ∧ d ∉ "await".toList

/-- Of two neighbours, one is hard. -/
def Parted (ps : List Piece) : Prop := ps.IsChain fun p q => p.IsHard ∨ q.IsHard

theorem isHard_blank : blank.IsHard := ⟨' ', ' ', rfl, rfl, by decide, by decide⟩

theorem isHard_mark (p : Punct) : (lexeme (.mark p)).IsHard := by
  cases p <;> exact ⟨_, _, rfl, rfl, by decide, by decide⟩

theorem Parted.cons {p : Piece} {ps : List Piece} (hp : p.IsHard) (h : Parted ps) : Parted (p :: ps) :=
  List.isChain_cons.2 ⟨fun _ _ => .inl hp, h⟩

theorem Parted.append {p : Piece} {ps qs : List Piece} (h : Parted ps) (hp : p.IsHard) (h' : Parted (p :: qs)) :
    Parted (ps ++ p :: qs) := by
  refine List.isChain_append.2 ⟨h, h', fun x _ y hy => ?_⟩
  cases hy
  exact .inr hp

/-- Every beginning of the mark ends with a letter of it, but for the whole mark. -/
theorem getLast_take_asyncMark : ∀ n < 6, 0 < n → (asyncMark.take n).getLast?.getD ' ' ∈ "await".toList := by decide

/-- Every end of the mark begins with a letter of it, but for the blank. -/
theorem head_drop_asyncMark : ∀ n < 5, (asyncMark.drop n).head?.getD ' ' ∈ "await".toList := by decide

/-- The mark begins in one piece and ends in another only where a piece ends with the word. -/
theorem exists_of_straddle {p : Piece} {ps : List Piece} (h : Parted (p :: ps)) {u v : List Char} (hmark : asyncMark = u ++ v)
    (hu : u <:+ p.text) (hne : u ≠ []) (hv : v <+: chars ps) (hne' : v ≠ []) :
    ∃ l, p = lexeme l ∧ asyncMark <:+: l.chars ++ [' '] := by
  have hpos : 0 < u.length := List.length_pos_iff.2 hne
  have hpos' : 0 < v.length := List.length_pos_iff.2 hne'
  have hlength : u.length + v.length = 6 := by rw [← List.length_append, ← hmark]; rfl
  have htake : u = asyncMark.take u.length := by rw [hmark, List.take_left]
  have hdrop : v = asyncMark.drop u.length := by rw [hmark, List.drop_left]
  -- What the piece ends with ends with a letter, so the piece is not hard.
  have hsoft : ¬ p.IsHard := by
    rintro ⟨-, d, -, hd, -, hletter⟩
    obtain ⟨before, hbefore⟩ := hu
    rw [← hbefore, List.getLast?_append_of_ne_nil _ hne] at hd
    apply hletter
    have := getLast_take_asyncMark u.length (by omega) hpos
    rwa [← htake, hd] at this
  cases p with
  | blank => exact absurd isHard_blank hsoft
  | lexeme l =>
      refine ⟨l, rfl, ?_⟩
      by_cases hfive : u.length = 5
      · -- The word ends in this piece, and only the blank is missing.
        have hv' : v = [' '] := by rw [hdrop, hfive]; rfl
        rw [hmark, hv']
        obtain ⟨before, hbefore⟩ := hu
        exact ⟨before, [], by rw [List.append_nil, ← List.append_assoc, hbefore]; rfl⟩
      · -- The next piece goes on with a letter, so it is not hard either.
        exfalso
        have hletter := head_drop_asyncMark u.length (by omega)
        rw [← hdrop] at hletter
        cases ps with
        | nil => exact hne' (List.prefix_nil.1 hv)
        | cons q qs =>
            obtain ⟨c, -, hc, -, hno, -⟩ := (List.isChain_cons_cons.1 h).1.resolve_left hsoft
            obtain ⟨after, hafter⟩ := hv
            apply hno
            have hhead : v.head? = some c := by
              have := congrArg List.head? hafter
              rw [chars_cons, List.head?_append_of_ne_nil _ hne'] at this
              rw [this, List.head?_append, hc]
              rfl
            rwa [hhead] at hletter

/-- Wherever the mark stands, one lexeme has it, up to the blank behind it. -/
theorem exists_of_asyncMark {ps : List Piece} (h : Parted ps) (hmark : asyncMark <:+: chars ps) :
    ∃ l, lexeme l ∈ ps ∧ asyncMark <:+: l.chars ++ [' '] := by
  induction ps with
  | nil => exact absurd (List.infix_nil.1 hmark) (by decide)
  | cons p ps ih =>
      have hmore : asyncMark <:+: chars ps → ∃ l, lexeme l ∈ p :: ps ∧ asyncMark <:+: l.chars ++ [' '] := by
        intro hinfix
        obtain ⟨l, hl, hfound⟩ := ih (List.isChain_cons.1 h).2 hinfix
        exact ⟨l, List.mem_cons_of_mem _ hl, hfound⟩
      have hhere : asyncMark <:+: p.text → ∃ l, lexeme l ∈ p :: ps ∧ asyncMark <:+: l.chars ++ [' '] := by
        intro hinfix
        cases p with
        | blank => exact absurd hinfix.length_le (by decide)
        | lexeme l => exact ⟨l, List.mem_cons_self, hinfix.trans (List.prefix_append _ _).isInfix⟩
      rw [chars_cons] at hmark
      rcases List.infix_append_iff.1 hmark with hinfix | hinfix | ⟨u, v, hsplit, hu, hv⟩
      · exact hhere hinfix
      · exact hmore hinfix
      · by_cases hne : u = []
        · rw [hne, List.nil_append] at hsplit
          exact hmore (hsplit ▸ hv.isInfix)
        · by_cases hne' : v = []
          · rw [hne', List.append_nil] at hsplit
            exact hhere (hsplit ▸ hu.isInfix)
          · obtain ⟨l, rfl, hfound⟩ := exists_of_straddle h hsplit hu hne hv hne'
            exact ⟨l, List.mem_cons_self, hfound⟩

end Token.Piece

/-! ## What an author spells -/

/-- The texts of a key that stand in it as they are. -/
def Key.spellings : Key → List String
  | .name id => [id.name]
  | .literal lit => [lit.raw]
  | .computed _ => []

def Property.spellings : Property → List String
  | .init k _ _ _ => k.spellings
  | .spread _ => []

def PatternProp.spellings : PatternProp → List String
  | .init k _ _ => k.spellings
  | .rest _ => []

namespace Node

/-- Whether a node waits. -/
def isAwait : Node → Bool
  | .expr (.await _ _) => true
  | _ => false

/-- The texts of a node that stand in it as they are: names, literals and the texts of templates. -/
def spellings : Node → List String
  | .expr (.literal lit _) => [lit.raw]
  | .expr (.template parts _ _) => parts.map (·.raw)
  | .expr (.identifier name _) => [name]
  | .expr (.member _ k _ _) => k.spellings
  | .expr (.object ps _) => ps.flatMap Property.spellings
  | .pattern (.ident id) => [id.name]
  | .pattern (.object ps _) => ps.flatMap PatternProp.spellings
  | _ => []

end Node

/-- Something that the text of a tree shows: a wait, or what an author spells. -/
inductive Sign where
  | wait
  | spelling (s : String)

/-- How a sign is written. -/
def Sign.text : Sign → List Char
  | .wait => asyncMark
  | .spelling s => s.toList

/-- The signs of a node. -/
def Node.signs (n : Node) : List Sign := (if n.isAwait then [Sign.wait] else []) ++ n.spellings.map .spelling

/-- The signs of nodes. -/
def signs (ns : List Node) : List Sign := ns.flatMap Node.signs

@[simp] theorem signs_nil : signs [] = [] := rfl

@[simp] theorem signs_cons (n : Node) (ns : List Node) : signs (n :: ns) = n.signs ++ signs ns := List.flatMap_cons

@[simp] theorem signs_append (ns ms : List Node) : signs (ns ++ ms) = signs ns ++ signs ms := List.flatMap_append

/-- Pieces show all signs of a list, and nothing else in them looks like a wait. -/
structure Tells (ps : List Piece) (ss : List Sign) : Prop where
  shown : ∀ s ∈ ss, s.text <:+: chars ps
  known : ∀ l, .lexeme l ∈ ps → asyncMark <:+: l.chars ++ [' '] → ∃ s ∈ ss, asyncMark <:+: s.text ++ [' ']
  parted : Token.Piece.Parted ps

/-- A piece between others that shows nothing. -/
structure Token.Piece.IsPlain (p : Piece) : Prop where
  hard : p.IsHard
  silent : ∀ l, p = .lexeme l → ¬ asyncMark <:+: l.chars ++ [' ']

/-- A lexeme that shows nothing. -/
def Token.Lexeme.IsSilent (l : Lexeme) : Prop := ¬ asyncMark <:+: l.chars ++ [' ']

instance (l : Lexeme) : Decidable l.IsSilent := inferInstanceAs (Decidable (¬ asyncMark <:+: l.chars ++ [' ']))

namespace Tells

open Token.Piece (IsHard IsPlain Parted chars_cons)
open Layout

variable {p : Piece} {ps qs : List Piece} {ss ts : List Sign} {l : Lexeme}

theorem plain_blank : IsPlain .blank := ⟨Token.Piece.isHard_blank, nofun⟩

theorem plain_mark (p : Punct) : IsPlain (.lexeme (.mark p)) := by
  refine ⟨Token.Piece.isHard_mark p, fun l h => ?_⟩
  cases h
  cases p <;> decide

theorem nil : Tells [] [] := ⟨nofun, nofun, .nil⟩

/-- What matters is which signs there are, not in which order. -/
theorem congr (h : Tells ps ss) (hsame : ∀ s, s ∈ ss ↔ s ∈ ts) : Tells ps ts := by
  refine ⟨fun s hs => h.shown s ((hsame s).2 hs), fun l hl hmark => ?_, h.parted⟩
  obtain ⟨s, hs, hfound⟩ := h.known l hl hmark
  exact ⟨s, (hsame s).1 hs, hfound⟩

theorem append_of_parted (h : Tells ps ss) (h' : Tells qs ts) (hparted : Parted (ps ++ qs)) :
    Tells (ps ++ qs) (ss ++ ts) := by
  refine ⟨fun s hs => ?_, fun l hl hmark => ?_, hparted⟩
  · rw [Token.Piece.chars_append]
    rcases List.mem_append.1 hs with hs | hs
    · exact (h.shown s hs).trans (List.prefix_append _ _).isInfix
    · exact (h'.shown s hs).trans (List.suffix_append _ _).isInfix
  · rcases List.mem_append.1 hl with hl | hl
    · obtain ⟨s, hs, hfound⟩ := h.known l hl hmark
      exact ⟨s, List.mem_append_left _ hs, hfound⟩
    · obtain ⟨s, hs, hfound⟩ := h'.known l hl hmark
      exact ⟨s, List.mem_append_right _ hs, hfound⟩

/-- Two parts of which the second begins with a hard piece. -/
theorem join (h : Tells ps ss) (hp : p.IsHard) (h' : Tells (p :: qs) ts) : Tells (ps ++ p :: qs) (ss ++ ts) :=
  append_of_parted h h' (h.parted.append hp h'.parted)

theorem cons (hp : p.IsPlain) (h : Tells ps ss) : Tells (p :: ps) ss := by
  have hpiece : Tells [p] [] :=
    ⟨nofun, fun l hl hmark => absurd hmark (hp.silent l (List.mem_singleton.1 hl).symm), .singleton _⟩
  exact append_of_parted hpiece h (h.parted.cons hp.hard)

/-- Two parts with a plain piece between them. -/
theorem append (h : Tells ps ss) (hp : p.IsPlain) (h' : Tells qs ts) : Tells (ps ++ p :: qs) (ss ++ ts) :=
  join h hp.hard (cons hp h')

theorem snoc (h : Tells ps ss) (hp : p.IsPlain) : Tells (ps ++ [p]) ss := by
  have := append h hp nil
  rwa [List.append_nil] at this

/-- A lexeme of the renderer. -/
theorem fixed (hl : l.IsSilent) : Tells [.lexeme l] [] := by
  refine ⟨nofun, fun l' h hmark => ?_, .singleton _⟩
  cases List.mem_singleton.1 h
  exact absurd hmark hl

/-- A lexeme that an author spells. -/
theorem spelled {s : String} (hl : l.chars = s.toList) : Tells [.lexeme l] [.spelling s] := by
  refine ⟨fun s' h => ?_, fun l' h hmark => ?_, .singleton _⟩
  · cases List.mem_singleton.1 h
    simp [Sign.text, Token.Piece.chars, hl]
  · cases List.mem_singleton.1 h
    exact ⟨_, List.mem_singleton_self _, by rwa [Sign.text, ← hl]⟩

theorem word (s : String) : Tells (Layout.word s) [.spelling s] := spelled rfl

/-- A word of the renderer with a blank behind it. -/
theorem keyword {s : String} (hs : (Lexeme.word s).IsSilent) (h : Tells ps ss) :
    Tells (Layout.word s ++ (blank ++ ps)) ss := append (fixed hs) plain_blank h

theorem wait (h : Tells ps ss) : Tells (Layout.word "await" ++ (blank ++ ps)) (.wait :: ss) := by
  have hword : Tells (Layout.word "await" ++ blank) [.wait] := by
    refine ⟨fun s hs => ?_, fun l _ _ => ⟨.wait, List.mem_singleton_self _, [], [' '], rfl⟩, ?_⟩
    · cases List.mem_singleton.1 hs
      exact List.infix_rfl
    · exact Token.Piece.Parted.append (.singleton _) Token.Piece.isHard_blank (.singleton _)
  exact append_of_parted hword h (Token.Piece.Parted.append (.singleton _) Token.Piece.isHard_blank
    (h.parted.cons Token.Piece.isHard_blank))

theorem parens (h : Tells ps ss) : Tells (parens ps) ss := cons (plain_mark _) (h.snoc (plain_mark _))

theorem brackets (h : Tells ps ss) : Tells (mark .openBracket ++ (ps ++ mark .closeBracket)) ss :=
  cons (plain_mark _) (h.snoc (plain_mark _))

theorem braces (h : Tells ps ss) : Tells (braces ps) ss := by
  have := append h plain_blank (fixed (l := .mark .closeBrace) (by decide))
  rw [List.append_nil] at this
  exact cons (plain_mark _) (cons plain_blank this)

/-! ### Templates -/

theorem isHard_piece (head : Bool) (part : TemplatePart) (ending : Token.TemplateEnd) :
    (Piece.lexeme (.piece head part ending)).IsHard := by
  have hlast : ∀ c : Char, ∃ d, (c :: (part.raw.toList ++ ending.chars)).getLast? = some d ∧ d ∉ "await".toList := by
    intro c
    rw [← List.cons_append, List.getLast?_append]
    cases ending <;> exact ⟨_, rfl, by decide⟩
  cases head with
  | true =>
      obtain ⟨d, hd, hletter⟩ := hlast '\x60'
      exact ⟨_, d, rfl, hd, by decide, hletter⟩
  | false =>
      obtain ⟨d, hd, hletter⟩ := hlast '}'
      exact ⟨_, d, rfl, hd, by decide, hletter⟩

/-- What delimits a piece of a template is not in the mark. -/
theorem asyncMark_infix_of_piece {head : Bool} {part : TemplatePart} {ending : Token.TemplateEnd}
    (h : asyncMark <:+: (Lexeme.piece head part ending).chars ++ [' ']) : asyncMark <:+: part.raw.toList ++ [' '] := by
  have hopen : ∃ c, (Lexeme.piece head part ending).chars ++ [' '] = c :: (part.raw.toList ++ (ending.chars ++ [' '])) ∧
      c ∉ asyncMark := by
    cases head <;> exact ⟨_, by rw [← List.append_assoc]; rfl, by decide⟩
  have hclose : ∃ c rest, ending.chars ++ [' '] = c :: rest ∧ c ∉ asyncMark ∧ ¬ asyncMark <:+: rest := by
    cases ending <;> exact ⟨_, _, rfl, by decide, by decide⟩
  obtain ⟨c, hchars, hc⟩ := hopen
  obtain ⟨c', rest, hrest, hc', hnone⟩ := hclose
  rw [hchars, hrest] at h
  have hinner := (asyncMark_infix_of_notMem hc (show asyncMark <:+: [] ++ c :: _ from h)).resolve_left (by decide)
  exact ((asyncMark_infix_of_notMem hc' hinner).resolve_right hnone).trans (List.prefix_append _ _).isInfix

theorem piece (head : Bool) (part : TemplatePart) (ending : Token.TemplateEnd) :
    Tells [.lexeme (.piece head part ending)] [.spelling part.raw] := by
  refine ⟨fun s hs => ?_, fun l hl hmark => ?_, .singleton _⟩
  · cases List.mem_singleton.1 hs
    exact ⟨[if head then '\x60' else '}'], ending.chars, by simp [Sign.text, Token.Piece.chars, Lexeme.piece]⟩
  · cases List.mem_singleton.1 hl
    exact ⟨_, List.mem_singleton_self _, asyncMark_infix_of_piece hmark⟩

/-- Several parts, with what they show together. -/
inductive TellAll : List (List Piece) → List Sign → Prop where
  | nil : TellAll [] []
  | cons {ps : List Piece} {pss : List (List Piece)} {ss ts : List Sign} (h : Tells ps ss) (more : TellAll pss ts) :
      TellAll (ps :: pss) (ss ++ ts)

theorem TellAll.commas {pss : List (List Piece)} (h : TellAll pss ss) : Tells (commas pss) ss := by
  induction h with
  | nil => exact .nil
  | @cons ps pss ss ts h more ih =>
      cases pss with
      | nil =>
          cases more
          rwa [List.append_nil]
      | cons qs more => exact append h (plain_mark .comma) (Tells.cons plain_blank ih)

theorem TellAll.spaced {pss : List (List Piece)} (h : TellAll pss ss) : Tells (spaced pss) ss := by
  induction h with
  | nil => exact .nil
  | @cons ps pss ss ts h more ih =>
      cases pss with
      | nil =>
          cases more
          rwa [List.append_nil]
      | cons qs more => exact append h plain_blank ih

theorem TellAll.list {pss : List (List Piece)} (h : TellAll pss ss) (endsWithHole : Bool) :
    Tells (list pss endsWithHole) ss := by
  refine Tells.cons (plain_mark .openBracket) ?_
  cases endsWithHole with
  | true =>
      have := append h.commas (plain_mark .comma) (fixed (l := .mark .closeBracket) (by decide))
      rwa [List.append_nil] at this
  | false => exact h.commas.snoc (plain_mark .closeBracket)

/-- A template begins with a hard piece. -/
theorem exists_template (head : Bool) (part : TemplatePart) (parts : List TemplatePart) (pss : List (List Piece)) :
    ∃ p ps, template head (part :: parts) pss = p :: ps ∧ p.IsHard := by
  cases pss with
  | nil => exact ⟨_, _, rfl, isHard_piece head part .closed⟩
  | cons ps more => exact ⟨_, _, rfl, isHard_piece head part .substitution⟩

theorem template {pss : List (List Piece)} (h : TellAll pss ss) (head : Bool) {parts : List TemplatePart}
    (hlength : parts.length = pss.length + 1) :
    Tells (template head parts pss) (parts.map (Sign.spelling ·.raw) ++ ss) := by
  induction h generalizing head parts with
  | nil =>
      obtain ⟨part, rfl⟩ := List.length_eq_one_iff.1 hlength
      exact piece head part .closed
  | @cons ps pss ss ts h more ih =>
      match parts with
      | part :: next :: parts =>
          have hlength' : (next :: parts).length = pss.length + 1 := by simpa using hlength
          have hrest := ih false hlength'
          obtain ⟨p, qs, htemplate, hhard⟩ := exists_template false next parts pss
          rw [htemplate] at hrest
          have hmore := append_of_parted (piece head part .substitution) (join h hhard hrest)
            ((h.parted.append hhard hrest.parted).cons (isHard_piece head part .substitution))
          rw [← htemplate] at hmore
          exact hmore.congr fun s => by simp [or_left_comm]

/-! ### Parts of a tree -/

section Parts

open Node

variable (out : Render.Outside) (l : Locals)

theorem name (x : String) (span : Span) : Tells (Layout.expr (Spelled.name out l x span)) [.spelling x] := by
  unfold Spelled.name
  cases Render.meaning out l x with
  | plain => exact word x
  | capability => exact append (fixed (l := .word "$api") (by decide)) (plain_mark .dot) (word x)
  | argument => exact append (fixed (l := .word "$data") (by decide)) (plain_mark .dot) (word x)

theorem target (id : Ident) : Tells (Layout.pattern (Spelled.target out l id)) [.spelling id.name] := by
  unfold Spelled.target
  cases Render.meaning out l id.name with
  | plain => exact word id.name
  | capability => exact append (fixed (l := .word "$api") (by decide)) (plain_mark .dot) (word id.name)
  | argument => exact append (fixed (l := .word "$data") (by decide)) (plain_mark .dot) (word id.name)

theorem literal (lit : Literal) : Tells [.lexeme lit.lexeme] [.spelling lit.raw] := by
  refine spelled ?_
  unfold Literal.lexeme
  split <;> rfl

theorem operand {ss : List Sign} {e : Expr} (h : Tells ps ss) : Tells (operand e ps) ss := by
  unfold Layout.operand
  split
  · exact h.parens
  · exact h

/-- A mark that may have the mark of an optional link in front of it. -/
theorem link {ss ts : List Sign} (h : Tells ps ss) (optional : Bool) (p : Punct) (h' : Tells qs ts) :
    Tells (ps ++ (link optional p ++ qs)) (ss ++ ts) := by
  cases optional with
  | true => exact append h (plain_mark .optionalDot) (cons (plain_mark p) h')
  | false => exact append h (plain_mark p) h'

theorem entry {ks : List Piece} {short : Bool} (hk : Tells ks ss) (h : Tells ps ts) (hshort : short = true → ss ⊆ ts) :
    ∃ us, Tells ((if short then [] else ks ++ (mark .colon ++ blank)) ++ ps) us ∧ ∀ s, s ∈ us ↔ s ∈ ss ∨ s ∈ ts := by
  cases short with
  | true => exact ⟨ts, h, fun s => ⟨.inr, fun hs => hs.elim (fun hs => hshort rfl hs) id⟩⟩
  | false =>
      have hwhole := append hk (plain_mark .colon) (cons plain_blank h)
      exact ⟨ss ++ ts, by simpa [mark, blank] using hwhole, fun s => List.mem_append⟩

theorem infix_operator (op : Lexeme) (h : Tells ps ss) (hop : op.IsSilent) (h' : Tells qs ts) :
    Tells (ps ++ (blank ++ (.lexeme op :: (blank ++ qs)))) (ss ++ ts) :=
  append h plain_blank (append (fixed hop) plain_blank h')

mutual

theorem expr (l : Locals) (e : Expr) (h : e.Legible true) :
    Tells (Layout.expr (Spelled.expr out l e)) (signs (ofExpr e)) := by
  match e with
  | .literal lit _ => exact literal lit
  | .template parts es _ =>
      have hlength : parts.length = (Layout.exprs (Spelled.exprs out l es)).length + 1 := by
        rw [length_exprs, Spelled.length_exprs, h.1]
      exact (template (exprs l es h.2.2) true hlength).congr fun s => by
        simp [ofExpr, Node.signs, isAwait, spellings]
  | .array is _ => exact (items l is h).list _
  | .object ps _ =>
      obtain ⟨us, htells, hus⟩ := properties l ps h
      refine htells.commas.braces.parens.congr fun s => (hus s).trans ?_
      simp [ofExpr, Node.signs, isAwait, spellings]
  | .identifier x span => exact name out l x span
  | .member o (.name id) optional _ =>
      have hobject := (expr l o h.1).operand (e := Spelled.expr out l o)
      refine Tells.congr (?_ : Tells _ (signs (ofExpr o) ++ [.spelling id.name])) fun s => by
        simp [ofExpr, ofKey, Node.signs, isAwait, spellings, Key.spellings, or_comm]
      cases optional with
      | true => exact append hobject (plain_mark .optionalDot) (word id.name)
      | false => exact append hobject (plain_mark .dot) (word id.name)
  | .member o (.computed e) optional _ =>
      have hkey := (expr l e h.2).snoc (plain_mark .closeBracket)
      exact (link ((expr l o h.1).operand (e := Spelled.expr out l o)) optional .openBracket hkey).congr fun s => by
        simp [ofExpr, ofKey, Node.signs, isAwait, spellings, Key.spellings]
  | .call callee args optional _ =>
      have hargs := (items l args h.2).commas.snoc (plain_mark .closeParen)
      exact (link ((expr l callee h.1).operand (e := Spelled.expr out l callee)) optional .openParen hargs).congr fun s => by
        simp [ofExpr, Node.signs, isAwait, spellings]
  | .arrow ps body isAsync _ =>
      have hps := params l.push ps h.1
      have hbody := arrowBody (l.push.declareAll (Pattern.boundNamesOf ps)) body h.2
      have hfunction := append hps.commas.parens plain_blank (append (fixed (l := .mark .arrow) (by decide)) plain_blank hbody)
      refine Tells.congr (?_ : Tells _ (signs (ofPatterns ps) ++ signs (ofArrowBody body))) fun s => by
        simp [ofExpr, Node.signs, isAwait, spellings]
      refine parens ?_
      cases isAsync with
      | true => exact keyword (s := "async") (by decide) hfunction
      | false => exact hfunction
  | .function _ | .this _ => cases h
  | .await e _ => exact wait (expr l e h)
  | .unary op e _ =>
      have he := expr l e h
      refine parens ?_
      cases op with
      | typeOf => exact append (fixed (l := .word "typeof") (by decide)) plain_blank he
      | void => exact append (fixed (l := .word "void") (by decide)) plain_blank he
      | delete => exact append (fixed (l := .word "delete") (by decide)) plain_blank he
      | _ => exact cons (plain_mark _) he
  | .update op before p _ =>
      have hp := pattern l .assign p h.2
      refine parens ?_
      cases before with
      | true =>
          rw [← List.append_nil (Layout.pattern _)] at hp
          cases op <;> exact cons (plain_mark _) hp
      | false => cases op <;> exact hp.snoc (plain_mark _)
  | .binary op left right _ =>
      exact (infix_operator op.lexeme (expr l left h.1) (by cases op <;> decide) (expr l right h.2)).parens.congr fun s => by
        simp [ofExpr, Node.signs, isAwait, spellings]
  | .logical op left right _ =>
      exact (infix_operator op.lexeme (expr l left h.1) (by cases op <;> decide) (expr l right h.2)).parens.congr fun s => by
        simp [ofExpr, Node.signs, isAwait, spellings]
  | .conditional test yes no _ =>
      exact (infix_operator (.mark .question) (expr l test h.1).parens (by decide)
        (infix_operator (.mark .colon) (expr l yes h.2.1).parens (by decide) (expr l no h.2.2).parens)).parens.congr
          fun s => by simp [ofExpr, Node.signs, isAwait, spellings]
  | .assign op p e _ =>
      have hop : op.lexeme.IsSilent := (plain_mark _).silent _ rfl
      exact (infix_operator _ (pattern l .assign p h.2.2.1) hop (expr l e h.2.2.2)).parens.congr fun s => by
        simp [ofExpr, Node.signs, isAwait, spellings]
  | .sequence es _ => exact (exprs l es h.2).commas.parens

theorem exprs (l : Locals) (es : List Expr) (h : LegibleExprs true es) :
    TellAll (Layout.exprs (Spelled.exprs out l es)) (signs (ofExprs es)) := by
  match es with
  | [] => exact .nil
  | e :: more => exact signs_append _ _ ▸ .cons (expr l e h.1) (exprs l more h.2)

theorem items (l : Locals) {holes : Bool} (is : List Item) (h : LegibleItems true holes is) :
    TellAll (Layout.items (Spelled.items out l is)) (signs (ofItems is)) := by
  match is with
  | [] => exact .nil
  | .expr e :: more => exact signs_append _ _ ▸ .cons (expr l e h.1) (items l more h.2)
  | .spread e :: more =>
      exact signs_append _ _ ▸ .cons (cons (plain_mark .ellipsis) (expr l e h.1)) (items l more h.2)
  | .hole :: more => exact .cons .nil (items l more h.2)

theorem key (l : Locals) (k : Key) (h : k.Legible true) :
    Tells (Layout.key (Spelled.key out l k)) (k.spellings.map .spelling ++ signs (ofKey k)) := by
  match k with
  | .name id => exact word id.name
  | .literal lit => exact literal lit
  | .computed e => exact (expr l e h).brackets

theorem properties (l : Locals) (ps : List Property) (h : LegibleProperties true ps) :
    ∃ us, TellAll (Layout.properties (Spelled.properties out l ps)) us ∧
      ∀ s, s ∈ us ↔ s ∈ (ps.flatMap Property.spellings).map .spelling ++ signs (ofProperties ps) := by
  match ps with
  | [] => exact ⟨[], .nil, fun s => Iff.rfl⟩
  | .init k e shorthand _ :: more =>
      obtain ⟨vs, hmore, hvs⟩ := properties l more h.2.2.2
      have hshort : (shorthand && Spelled.staysShort out k) = true →
          k.spellings.map .spelling ++ signs (ofKey k) ⊆ signs (ofExpr e) := by
        intro hshort
        obtain ⟨id, span, rfl, rfl, -⟩ := h.1 (Bool.and_eq_true_iff.1 hshort).1
        exact List.Subset.refl _
      obtain ⟨us, hentry, hus⟩ := entry (key l k h.2.1) (expr l e h.2.2.1) hshort
      refine ⟨us ++ vs, .cons hentry hmore, fun s => ?_⟩
      simp only [List.mem_append, hus, hvs, List.flatMap_cons, List.map_append, ofProperties, signs_append,
        Property.spellings]
      tauto
  | .spread e :: more =>
      obtain ⟨vs, hmore, hvs⟩ := properties l more h.2
      refine ⟨_, .cons (cons (plain_mark .ellipsis) (expr l e h.1).parens) hmore, fun s => ?_⟩
      simp only [List.mem_append, hvs, List.flatMap_cons, List.map_append, ofProperties, signs_append, Property.spellings]
      tauto

theorem arrowBody (l : Locals) (b : ArrowBody) (h : b.Legible true) :
    Tells (Layout.arrowBody (Spelled.arrowBody out l b)) (signs (ofArrowBody b)) := by
  match b with
  | .expr e => exact expr l e h
  | .block b => exact block l b h

theorem params (l : Locals) (ps : List Pattern) (h : LegiblePatterns true .bind .param ps) :
    TellAll (Layout.patterns (Spelled.params out l ps)) (signs (ofPatterns ps)) := by
  match ps with
  | [] => exact .nil
  | p :: more => exact signs_append _ _ ▸ .cons (pattern l .bind p h.1) (params _ more h.2)

theorem pattern (l : Locals) (mode : Render.Mode) {place : Place} (p : Pattern) (h : p.Legible true mode place) :
    Tells (Layout.pattern (Spelled.pattern out l mode p)) (signs (ofPattern p)) := by
  match p with
  | .ident id =>
      cases mode with
      | bind => exact word id.name
      | assign => exact target out l id
  | .array ps _ => exact (patterns l mode ps h).list _
  | .object ps _ =>
      obtain ⟨us, htells, hus⟩ := patternProps l mode ps h
      refine htells.commas.braces.congr fun s => (hus s).trans ?_
      simp [ofPattern, Node.signs, isAwait, spellings]
  | .assign p e =>
      exact (infix_operator (.mark .assign) (pattern l mode p h.2.1) (by decide) (expr l e h.2.2)).congr fun s => by
        simp [ofPattern, Node.signs, isAwait, spellings]
  | .rest p => exact cons (plain_mark .ellipsis) (pattern l mode p h.2)
  | .member e => exact expr l e h.2.2
  | .hole => exact .nil

theorem patterns (l : Locals) (mode : Render.Mode) {place : Place} (ps : List Pattern)
    (h : LegiblePatterns true mode place ps) :
    TellAll (Layout.patterns (Spelled.patterns out l mode ps)) (signs (ofPatterns ps)) := by
  match ps with
  | [] => exact .nil
  | p :: more => exact signs_append _ _ ▸ .cons (pattern l mode p h.1) (patterns l mode more h.2)

theorem patternProps (l : Locals) (mode : Render.Mode) (ps : List PatternProp) (h : LegiblePatternProps true mode ps) :
    ∃ us, TellAll (Layout.patternProps (Spelled.patternProps out l mode ps)) us ∧
      ∀ s, s ∈ us ↔ s ∈ (ps.flatMap PatternProp.spellings).map .spelling ++ signs (ofPatternProps ps) := by
  match ps with
  | [] => exact ⟨[], .nil, fun s => Iff.rfl⟩
  | .init k p shorthand :: more =>
      obtain ⟨vs, hmore, hvs⟩ := patternProps l mode more h.2.2.2
      have hshort : (shorthand && Spelled.staysShortIn out l mode k) = true →
          k.spellings.map .spelling ++ signs (ofKey k) ⊆ signs (ofPattern p) := by
        intro hshort
        obtain ⟨id, span, rfl, -, rfl | ⟨default, rfl⟩⟩ := (h.1 (Bool.and_eq_true_iff.1 hshort).1).1
        · exact List.Subset.refl _
        · exact List.subset_append_left _ _
      obtain ⟨us, hentry, hus⟩ := entry (key l k h.2.1) (pattern l mode p h.2.2.1) hshort
      refine ⟨us ++ vs, .cons hentry hmore, fun s => ?_⟩
      simp only [List.mem_append, hus, hvs, List.flatMap_cons, List.map_append, ofPatternProps, signs_append,
        PatternProp.spellings]
      tauto
  | .rest p :: more =>
      obtain ⟨vs, hmore, hvs⟩ := patternProps l mode more h.2.2
      refine ⟨_, .cons (cons (plain_mark .ellipsis) (pattern l mode p h.2.1)) hmore, fun s => ?_⟩
      simp only [List.mem_append, hvs, List.flatMap_cons, List.map_append, ofPatternProps, signs_append,
        PatternProp.spellings]
      tauto

theorem stmt (l : Locals) (s : Stmt) (h : s.Legible true) :
    Tells (Layout.statement (Spelled.statement out l s)) (signs (ofStmt s)) := by
  match s with
  | .expr e _ => exact (expr l e h).snoc (plain_mark .semicolon)
  | .declare d _ => exact (varDecl l d h).snoc (plain_mark .semicolon)
  | .return none _ => exact append (fixed (l := .word "return") (by decide)) (plain_mark .semicolon) .nil
  | .return (some e) _ => exact keyword (s := "return") (by decide) ((expr l e h).snoc (plain_mark .semicolon))
  | .cond test yes none _ =>
      have htells := keyword (s := "if") (by decide) (append (expr l test h.2.1).parens plain_blank (stmt l yes h.2.2))
      exact htells.congr fun s => by simp [ofStmt, Node.signs, isAwait, spellings]
  | .cond test yes (some no) _ =>
      have helse := keyword (s := "else") (by decide) (stmt (Awaited.behind l yes) no h.2.2.2)
      have htells := keyword (s := "if") (by decide) (append (expr l test h.2.1).parens plain_blank
        (append (stmt l yes h.2.2.1) plain_blank helse))
      exact htells.congr fun s => by simp [ofStmt, Node.signs, isAwait, spellings]
  | .while test body _ =>
      have htells := keyword (s := "while") (by decide) (append (expr l test h.2.1).parens plain_blank (stmt l body h.2.2))
      exact htells.congr fun s => by simp [ofStmt, Node.signs, isAwait, spellings]
  | .doWhile body test _ =>
      have hwhile := keyword (s := "while") (by decide)
        ((expr (Awaited.behind l body) test h.2.2).parens.snoc (plain_mark .semicolon))
      have htells := keyword (s := "do") (by decide) (append (stmt l body h.2.1) plain_blank hwhile)
      exact htells.congr fun s => by simp [ofStmt, Node.signs, isAwait, spellings]
  | .for init test update body _ =>
      have hhead := append (forInit l.push init h.2.1) (plain_mark .semicolon) (cons plain_blank
        (append (optional (Awaited.behindInit l.push init) test h.2.2.1) (plain_mark .semicolon)
          (cons plain_blank (optional (Awaited.behindInit l.push init) update h.2.2.2.1))))
      have htells := keyword (s := "for") (by decide) (append hhead.parens plain_blank
        (stmt (Awaited.behindInit l.push init) body h.2.2.2.2))
      exact htells.congr fun s => by simp [ofStmt, Node.signs, isAwait, spellings]
  | .block b => exact block l b h
  | .break _ => exact append (fixed (l := .word "break") (by decide)) (plain_mark .semicolon) .nil
  | .continue _ => exact append (fixed (l := .word "continue") (by decide)) (plain_mark .semicolon) .nil
  | .debugger _ => exact append (fixed (l := .word "debugger") (by decide)) (plain_mark .semicolon) .nil
  | .empty _ => exact cons (plain_mark .semicolon) .nil
  | .function _ => cases h

theorem optional (l : Locals) (e : Option Expr) (h : LegibleOption true e) :
    Tells (Layout.optional (Spelled.optional out l e)) (signs (ofOption e)) := by
  match e with
  | none => exact .nil
  | some e => exact expr l e h

theorem block (l : Locals) (b : Block) (h : b.Legible true) :
    Tells (Layout.block (Spelled.block out l b)) (signs (ofBlock b)) := by
  match b with
  | .mk ss _ => exact (stmts l.push ss h).spaced.braces

theorem stmts (l : Locals) (ss : List Stmt) (h : LegibleStmts true ss) :
    TellAll (Layout.statements (Spelled.statements out l ss)) (signs (ofStmts ss)) := by
  match ss with
  | [] => exact .nil
  | s :: more => exact signs_append _ _ ▸ .cons (stmt l s h.1) (stmts (Awaited.behind l s) more h.2)

theorem varDecl (l : Locals) (d : VarDecl) (h : d.Legible true) :
    Tells (Layout.varDecl (Spelled.varDecl out l d)) (signs (ofVarDecl d)) := by
  match d with
  | .mk kind ds _ => exact keyword (s := kind.text) (by cases kind <;> decide) (declarators l ds h.2).commas

theorem declarators (l : Locals) (ds : List Declarator) (h : LegibleDeclarators true ds) :
    TellAll (Layout.declarators (Spelled.declarators out l ds)) (signs (ofDeclarators ds)) := by
  match ds with
  | [] => exact .nil
  | .mk p none _ :: more =>
      have hp := pattern l .bind p h.1
      rw [← List.append_nil (Layout.pattern _)] at hp
      exact signs_append _ _ ▸ .cons hp (declarators (l.declareAll p.boundNames) more h.2.2)
  | .mk p (some e) _ :: more =>
      have hp := infix_operator (.mark .assign) (pattern l .bind p h.1) (by decide) (expr l e h.2.1)
      have hds := TellAll.cons hp (declarators (l.declareAll p.boundNames) more h.2.2)
      rwa [List.append_assoc, ← signs_append, ← signs_append] at hds

theorem forInit (l : Locals) (init : ForInit) (h : init.Legible true) :
    Tells (Layout.forInit (Spelled.forInit out l init)) (signs (ofForInit init)) := by
  match init with
  | .absent => exact .nil
  | .declare d => exact varDecl l d h
  | .expr e => exact expr l e h

end

end Parts

end Tells

end FieldScript
