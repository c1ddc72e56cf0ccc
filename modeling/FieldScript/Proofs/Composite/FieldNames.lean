import FieldScript.Proofs.Composite.Excision
import FieldScript.Schema.Document

/-!
# Which field a body belongs to

The name for a body is searched backwards through the tokens in front of it. The search notes that it has passed a colon,
a closing and an opening parenthesis, but does not count parentheses: the first pair of them decides. So a body goes to
the declaration in front of it only as long as none of the directives that are applied there has arguments. With such a
directive the body goes to the name of the directive.

Strategy:

* `Schema.Declaration`: what a field may be declared with, and the kinds of the tokens that it is written with.
* `Closed`: tokens that end in parentheses, with the name in front of the last opening one.
* `Trails`: the last directive with arguments is where the last closed part ends; part by part, `Trails.append`.
* `backName?_closed`: the search stops in front of the parentheses that it meets first.
* `backName?_declaration`: what the search finds at the end of a declaration is `Declaration.found`.
* `Course.backName?_eq`: along a course, each body is attributed by the tokens in front of it.

The result is `extract_fields`; `appliedDirective_misplaced` is a source on which a directive gets the body of a field.
-/

namespace FieldScript

namespace Schema

/-! ## Declarations -/

/-- The kinds of the tokens that a type is written with. -/
def TypeExpr.kinds : TypeExpr → List TokenKind
  | .named name => [.name name]
  | .list item => .openBracket :: (item.kinds ++ [.closeBracket])
  | .nonNull inner => inner.kinds ++ [.bang]

/-- The kinds of the tokens that a value may be written with. -/
inductive IsValue : List TokenKind → Prop
  | name (text : String) : IsValue [.name text]
  | int (text : String) : IsValue [.int text]
  | float (text : String) : IsValue [.float text]
  | string (text : String) : IsValue [.string text]
  | blockString (text : String) : IsValue [.blockString text]
  | dollar (text : String) : IsValue [.dollar, .name text]
  | list (items : List (List TokenKind)) (hitems : ∀ item ∈ items, IsValue item) :
      IsValue (.openBracket :: (items.flatten ++ [TokenKind.closeBracket]))
  | object (fields : List (String × List TokenKind)) (hfields : ∀ field ∈ fields, IsValue field.2) :
      IsValue (.openBrace :: (fields.flatMap (fun field => .name field.1 :: .colon :: field.2) ++ [TokenKind.closeBrace]))

/-- A value, by the kinds of its tokens. -/
structure ArgumentValue where
  kinds : List TokenKind
  isValue : IsValue kinds

/-- A directive that is applied, with its arguments. -/
structure Directive where
  name : String
  arguments : List (String × ArgumentValue)

/-- Parts in parentheses, which are left out when there is no part. -/
def parenthesized {α : Type} (kinds : α → List TokenKind) : List α → List TokenKind
  | [] => []
  | parts => .openParen :: (parts.flatMap kinds ++ [.closeParen])

def Directive.kinds (d : Directive) : List TokenKind :=
  .atSign :: .name d.name :: parenthesized (fun a => .name a.1 :: .colon :: a.2.kinds) d.arguments

/-- An argument of a field. -/
structure ArgumentDeclaration where
  name : String
  type : TypeExpr
  default : Option ArgumentValue
  directives : List Directive

def ArgumentDeclaration.kinds (a : ArgumentDeclaration) : List TokenKind :=
  .name a.name :: .colon :: (a.type.kinds ++ (a.default.elim [] (.equals :: ·.kinds) ++ a.directives.flatMap Directive.kinds))

/-- A field that is declared. -/
structure Declaration where
  name : String
  arguments : List ArgumentDeclaration
  type : TypeExpr
  directives : List Directive

def Declaration.kinds (d : Declaration) : List TokenKind :=
  .name d.name :: (parenthesized ArgumentDeclaration.kinds d.arguments ++
    .colon :: (d.type.kinds ++ d.directives.flatMap Directive.kinds))

/-- The last directive that has arguments. -/
def lastApplied? (ds : List Directive) : Option Directive := (ds.filter (!·.arguments.isEmpty)).getLast?

/-- The name that is found for a body behind a declaration: that of the last directive with arguments, be it applied to an
argument or to the field, and else that of the field. -/
def Declaration.found (d : Declaration) : String :=
  (lastApplied? (d.arguments.flatMap (·.directives) ++ d.directives)).elim d.name Directive.name

@[simp] theorem lastApplied?_nil : lastApplied? [] = none := rfl

theorem lastApplied?_append (ds ds' : List Directive) :
    lastApplied? (ds ++ ds') = (lastApplied? ds').or (lastApplied? ds) := by
  rw [lastApplied?, List.filter_append, List.getLast?_append]
  rfl

/-! ## Kinds without parentheses -/

/-- Neither parentheses nor a colon. -/
def TokenKind.isPlain (k : TokenKind) : Prop := k ≠ .openParen ∧ k ≠ .closeParen ∧ k ≠ .colon

theorem TypeExpr.kinds_isPlain (type : TypeExpr) : ∀ k ∈ type.kinds, k.isPlain := by
  induction type with
  | named name => simp [TypeExpr.kinds, TokenKind.isPlain]
  | list item ih => simpa [TypeExpr.kinds, TokenKind.isPlain, or_imp, forall_and] using ih
  | nonNull inner ih => simpa [TypeExpr.kinds, TokenKind.isPlain, or_imp, forall_and] using ih

theorem IsValue.openParen_notMem {ks : List TokenKind} (h : IsValue ks) : .openParen ∉ ks := by
  induction h with
  | name _ | int _ | float _ | string _ | blockString _ | dollar _ => simp
  | list items _ ih => simpa using ih
  | object fields _ ih => simpa using fun text ks hfield => ih (text, ks) hfield

/-! ## Closed parts -/

/-- Tokens that end in parentheses: a name, the last opening parenthesis, and a colon somewhere behind it. -/
def Closed (name : String) (ks : List TokenKind) : Prop :=
  ∃ front inner, ks = front ++ TokenKind.name name :: .openParen :: (inner ++ [TokenKind.closeParen]) ∧
    TokenKind.openParen ∉ inner ∧ TokenKind.colon ∈ inner

variable {name : String} {ks ks' : List TokenKind} {q q' : TokenKind → Prop}

theorem Closed.prepend (h : Closed name ks) (front : List TokenKind) : Closed name (front ++ ks) := by
  obtain ⟨front', inner, rfl, hopen, hcolon⟩ := h
  exact ⟨front ++ front', inner, by rw [List.append_assoc], hopen, hcolon⟩

/-- Around a closed part there may be other parentheses that close. -/
theorem Closed.close (h : Closed name ks) (hopen' : .openParen ∉ ks') :
    Closed name (ks ++ (ks' ++ [TokenKind.closeParen])) := by
  obtain ⟨front, inner, rfl, hopen, hcolon⟩ := h
  refine ⟨front, inner ++ .closeParen :: ks', by simp, ?_, ?_⟩
  · simp [hopen, hopen']
  · exact List.mem_append_left _ hcolon

/-- Tokens of which the part up to the last directive with arguments is closed, and those behind it are of certain kinds. -/
def Trails (q : TokenKind → Prop) (last : Option Directive) (ks : List TokenKind) : Prop :=
  match last with
  | none => ∀ k ∈ ks, q k
  | some e => ∃ closed rest, ks = closed ++ rest ∧ Closed e.name closed ∧ ∀ k ∈ rest, q k

theorem Trails.mono {last : Option Directive} (h : Trails q last ks) (himp : ∀ k, q k → q' k) : Trails q' last ks := by
  cases last with
  | none => exact fun k hk => himp k (h k hk)
  | some e =>
      obtain ⟨closed, rest, heq, hclosed, hrest⟩ := h
      exact ⟨closed, rest, heq, hclosed, fun k hk => himp k (hrest k hk)⟩

theorem Trails.append {last last' : Option Directive} (h : Trails q last ks) (h' : Trails q last' ks') :
    Trails q (last'.or last) (ks ++ ks') := by
  cases last' with
  | some e =>
      obtain ⟨closed, rest, rfl, hclosed, hrest⟩ := h'
      exact ⟨ks ++ closed, rest, by rw [List.append_assoc], hclosed.prepend ks, hrest⟩
  | none =>
      cases last with
      | none => exact List.forall_mem_append.2 ⟨h, h'⟩
      | some e =>
          obtain ⟨closed, rest, rfl, hclosed, hrest⟩ := h
          exact ⟨closed, rest ++ ks', by rw [List.append_assoc], hclosed, List.forall_mem_append.2 ⟨hrest, h'⟩⟩

/-- Parts one after another, each of which ends with its last directive with arguments. -/
theorem trails_flatMap {α : Type} {directives : α → List Directive} {kinds : α → List TokenKind}
    (h : ∀ a, Trails q (lastApplied? (directives a)) (kinds a)) (as : List α) :
    Trails q (lastApplied? (as.flatMap directives)) (as.flatMap kinds) := by
  induction as with
  | nil => nofun
  | cons a as ih =>
      rw [List.flatMap_cons, List.flatMap_cons, lastApplied?_append]
      exact (h a).append ih

theorem Directive.trails (d : Directive) : Trails TokenKind.isPlain (lastApplied? [d]) d.kinds := by
  obtain ⟨name, arguments⟩ := d
  cases arguments with
  | nil =>
      show ∀ k ∈ [TokenKind.atSign, .name name], k.isPlain
      simp [TokenKind.isPlain]
  | cons a as =>
      refine ⟨_, [], (List.append_nil _).symm, ⟨[.atSign], _, rfl, ?_, ?_⟩, nofun⟩
      · -- Values have no parentheses, so those of the directive are the last ones.
        intro hmem
        obtain ⟨a', -, hopen⟩ := List.mem_flatMap.1 hmem
        simp [a'.2.isValue.openParen_notMem] at hopen
      · simp

theorem Directive.trails_all (ds : List Directive) :
    Trails TokenKind.isPlain (lastApplied? ds) (ds.flatMap Directive.kinds) := by
  have hall := trails_flatMap Directive.trails ds
  rw [List.flatMap_singleton'] at hall
  exact hall

theorem ArgumentDeclaration.trails (a : ArgumentDeclaration) : Trails (· ≠ .openParen) (lastApplied? a.directives) a.kinds := by
  have hdirectives : Trails (· ≠ .openParen) (lastApplied? a.directives) (a.directives.flatMap Directive.kinds) :=
    (Directive.trails_all a.directives).mono fun k hk => hk.1
  have hhead : Trails (· ≠ .openParen) none
      (.name a.name :: .colon :: (a.type.kinds ++ a.default.elim [] (.equals :: ·.kinds))) := by
    have htype : .openParen ∉ a.type.kinds := fun hmem => (a.type.kinds_isPlain _ hmem).1 rfl
    have hdefault : .openParen ∉ a.default.elim [] (.equals :: ·.kinds) := by
      cases a.default with
      | none => exact List.not_mem_nil
      | some v => simpa using v.isValue.openParen_notMem
    intro k hk heq
    subst heq
    simp [htype, hdefault] at hk
  have hparts := hhead.append hdirectives
  rw [Option.or_none] at hparts
  simpa [ArgumentDeclaration.kinds] using hparts

/-- Arguments that stand in parentheses behind a name. -/
theorem closed_arguments (as : List ArgumentDeclaration) (has : as ≠ []) (name : String) :
    Closed ((lastApplied? (as.flatMap (·.directives))).elim name Directive.name)
      (.name name :: parenthesized ArgumentDeclaration.kinds as) := by
  have hkinds : parenthesized ArgumentDeclaration.kinds as =
      .openParen :: (as.flatMap ArgumentDeclaration.kinds ++ [TokenKind.closeParen]) := by
    cases as with
    | nil => exact absurd rfl has
    | cons a as => rfl
  have htrails := trails_flatMap ArgumentDeclaration.trails as
  rw [hkinds]
  cases hlast : lastApplied? (as.flatMap (·.directives)) with
  | none =>
      -- The parentheses of the field itself are the only ones.
      rw [hlast] at htrails
      refine ⟨[], _, rfl, fun hmem => htrails _ hmem rfl, ?_⟩
      obtain ⟨a, as', rfl⟩ := List.exists_cons_of_ne_nil has
      simp [ArgumentDeclaration.kinds]
  | some e =>
      rw [hlast] at htrails
      obtain ⟨closed, rest, heq, hclosed, hrest⟩ := htrails
      have hopen : .openParen ∉ rest := fun hmem => hrest _ hmem rfl
      have hclose := (hclosed.close hopen).prepend [.name name, .openParen]
      rw [heq]
      simpa using hclose

end Schema

namespace Extract

open Schema (TokenKind Declaration Closed Directive)

/-! ## The backward search -/

/-- The name that a backward search finds among kinds, last first. -/
def backName? (p : Passed) : List TokenKind → Option String
  | [] => none
  | .colon :: ks => if p.colon && !p.closing then none else backName? { p with colon := true } ks
  | .closeParen :: ks => backName? { p with closing := true } ks
  | .openParen :: ks => if p.closing then backName? { p with opening := true } ks else none
  | .name name :: ks => if p.colon && p.closing == p.opening then some name else backName? p ks
  | _ :: ks => backName? p ks

/-- The search looks at the kinds of tokens only. -/
theorem fieldName?_eq_backName? (p : Passed) (ts : List Schema.Token) : fieldName? p ts = backName? p (ts.map (·.kind)) := by
  induction ts generalizing p with
  | nil => rfl
  | cons t ts ih =>
      obtain ⟨kind, span⟩ := t
      cases kind <;> simp [fieldName?, backName?, ih]

variable {name : String} {ks rest : List TokenKind} {p : Passed}

/-- A name that is found has a colon behind it. -/
theorem exists_of_backName? (h : backName? p ks = some name) :
    ∃ back front, ks = back ++ TokenKind.name name :: front ∧ (p.colon = true ∨ TokenKind.colon ∈ back) := by
  induction ks generalizing p with
  | nil => cases h
  | cons k ks ih =>
      -- A token that is passed stands behind the name.
      have hpass : ∀ p' : Passed, backName? p' ks = some name → (p'.colon = true → p.colon = true ∨ k = .colon) →
          ∃ back front, k :: ks = back ++ TokenKind.name name :: front ∧ (p.colon = true ∨ TokenKind.colon ∈ back) := by
        intro p' hrest hcolon
        obtain ⟨back, front, rfl, hback⟩ := ih hrest
        refine ⟨k :: back, front, rfl, ?_⟩
        rcases hback with hback | hback
        · rcases hcolon hback with hp | rfl
          · exact .inl hp
          · exact .inr List.mem_cons_self
        · exact .inr (List.mem_cons_of_mem _ hback)
      cases k with
      | colon =>
          rw [backName?] at h
          split at h
          · cases h
          · exact hpass _ h fun _ => .inr rfl
      | closeParen => exact hpass _ h .inl
      | openParen =>
          rw [backName?] at h
          split at h
          · exact hpass _ h .inl
          · cases h
      | name text =>
          rw [backName?] at h
          split at h
          · rename_i hcolon
            cases h
            simp only [Bool.and_eq_true] at hcolon
            exact ⟨[], ks, rfl, .inl hcolon.1⟩
          · exact hpass _ h .inl
      | _ => exact hpass _ h .inl

/-- Without a colon there is no name, and nothing else to note outside of parentheses. -/
theorem backName?_plain (ks rest : List TokenKind) {plain : List TokenKind} (h : ∀ k ∈ plain, k.isPlain) :
    backName? ⟨false, false, false⟩ ((ks ++ plain).reverse ++ rest) =
      backName? ⟨false, false, false⟩ (ks.reverse ++ rest) := by
  induction plain using List.reverseRecOn with
  | nil => rw [List.append_nil]
  | append_singleton plain k ih =>
      obtain ⟨hplain, hlast⟩ := List.forall_mem_append.1 h
      obtain ⟨hopen, hclose, hcolon⟩ := hlast k List.mem_cons_self
      rw [← ih hplain, ← List.append_assoc, List.reverse_concat, List.cons_append]
      cases k with
      | openParen => exact absurd rfl hopen
      | closeParen => exact absurd rfl hclose
      | colon => exact absurd rfl hcolon
      | _ => rfl

/-- Inside of parentheses the search notes colons, up to an opening parenthesis. -/
theorem backName?_inside (h : .openParen ∉ ks) (colon : Bool) (rest : List TokenKind) :
    backName? ⟨colon, true, false⟩ (ks ++ rest) = backName? ⟨colon || ks.contains .colon, true, false⟩ rest := by
  -- Names are passed here, since no opening parenthesis goes with the closing one yet.
  induction ks generalizing colon with
  | nil => simp
  | cons k ks ih =>
      rw [List.mem_cons, not_or] at h
      have hks := ih h.2 colon
      cases k with
      | openParen => exact absurd rfl h.1
      | colon => simpa [backName?] using ih h.2 true
      | name text => simpa [backName?] using hks
      | _ => simpa [backName?] using hks

/-- The search stops in front of the parentheses that it meets first. -/
theorem backName?_closed (h : Closed name ks) (colon : Bool) (rest : List TokenKind) :
    backName? ⟨colon, false, false⟩ (ks.reverse ++ rest) = some name := by
  obtain ⟨front, inner, rfl, hopen, hcolon⟩ := h
  have hinside : .openParen ∉ inner.reverse := by simpa using hopen
  have hpassed : inner.reverse.contains .colon = true := by simpa using hcolon
  have hreverse : (front ++ TokenKind.name name :: .openParen :: (inner ++ [TokenKind.closeParen])).reverse ++ rest =
      TokenKind.closeParen :: (inner.reverse ++ .openParen :: .name name :: (front.reverse ++ rest)) := by simp
  rw [hreverse, backName?, backName?_inside hinside, hpassed, Bool.or_true]
  rfl

/-- What is found for a body behind a declaration. -/
theorem backName?_declaration (d : Declaration) :
    backName? ⟨false, false, false⟩ (d.kinds.reverse ++ rest) = some d.found := by
  obtain ⟨field, arguments, type, directives⟩ := d
  have htrails := Directive.trails_all directives
  rw [Declaration.found, Schema.lastApplied?_append, Declaration.kinds]
  dsimp only
  cases hlast : Schema.lastApplied? directives with
  | some e =>
      -- The field's own directives are met first.
      rw [hlast] at htrails
      obtain ⟨closed, plain, heq, hclosed, hplain⟩ := htrails
      have happlied := hclosed.prepend
        (.name field :: (Schema.parenthesized Schema.ArgumentDeclaration.kinds arguments ++
          TokenKind.colon :: type.kinds))
      have hfound := (backName?_plain _ rest hplain).trans (backName?_closed happlied false rest)
      rw [heq]
      simpa using hfound
  | none =>
      rw [hlast] at htrails
      have hplain : ∀ k ∈ type.kinds ++ directives.flatMap Directive.kinds, k.isPlain :=
        List.forall_mem_append.2 ⟨type.kinds_isPlain, htrails⟩
      have hskip := backName?_plain
        (.name field :: (Schema.parenthesized Schema.ArgumentDeclaration.kinds arguments ++ [TokenKind.colon])) rest hplain
      by_cases harguments : arguments = []
      · subst harguments
        simpa [Schema.parenthesized, backName?] using hskip
      · have hclosed := backName?_closed (Schema.closed_arguments arguments harguments field) true rest
        have hcolon : backName? ⟨false, false, false⟩
            ((.name field :: (Schema.parenthesized Schema.ArgumentDeclaration.kinds arguments ++
              [TokenKind.colon])).reverse ++ rest) =
              some ((Schema.lastApplied? (arguments.flatMap (·.directives))).elim field Directive.name) := by
          simpa [backName?] using hclosed
        simpa using hskip.trans hcolon

/-! ## Bodies of a course -/

variable {source : Source} {c : Schema.Cursor} {s : State} {ps : List Piece}

/-- The kinds of the tokens up to a place. -/
def kindsUpTo (ts : List Schema.Token) (place : Nat) : List TokenKind :=
  (ts.filter (·.span.stop ≤ place)).map (·.kind)

theorem State.pass_before (s : State) (t : Schema.Token) : (s.pass t).before = t :: s.before := rfl

/-- Each body is attributed by the tokens in front of it. -/
theorem Course.backName?_eq {front : List Char} (h : Course source c s ps) (hc : c.Stands source front) :
    ∀ b ∈ bodiesOf ps, backName? ⟨false, false, false⟩
      ((kindsUpTo (tokensOf ps) b.1.span.start).reverse ++ s.before.map (·.kind)) = some b.1.field := by
  induction h generalizing front with
  | done _ => nofun
  | @token c next s blank w t ps hlex hopens hrest ih =>
      intro b hb
      have hnext := hc.lexes hlex
      have hstop : t.span.stop = next.offset := by rw [hlex.span, hlex.offset]
      have hle : t.span.stop ≤ b.1.span.start := by
        rw [hstop]
        exact (hrest.ascending hnext).start_le (List.mem_map_of_mem hb)
      have hkinds : kindsUpTo (tokensOf (.token blank w t :: ps)) b.1.span.start =
          t.kind :: kindsUpTo (tokensOf ps) b.1.span.start := by
        simp [kindsUpTo, tokensOf, Piece.token?, hle]
      have hname := ih hnext b hb
      rw [State.pass_before, List.map_cons] at hname
      rw [hkinds, List.reverse_cons, List.append_assoc, List.singleton_append]
      exact hname
  | @body c mid after s blank inner t container field expr ps region hlex _ _ hfield hcloses hregion hrest ih =>
      have hafter := hcloses.stands (hc.lexes hlex)
      have hopened := hlex.offset
      have hclosed := hcloses.offset
      intro b hb
      rcases List.mem_cons.1 hb with rfl | hb
      · -- No token that follows stands in front of the body.
        have hnone : kindsUpTo (tokensOf ps) region.span.start = [] := by
          have hbehind : ∀ t ∈ tokensOf ps, ¬ t.span.stop ≤ region.span.start := by
            intro t ht
            obtain ⟨hle, hlt⟩ := hrest.start_le t ht
            rw [hregion]
            show ¬ t.span.stop ≤ c.offset + Text.byteLength blank
            omega
          rw [kindsUpTo, List.filter_eq_nil_iff.2 (by simpa using hbehind), List.map_nil]
        show backName? _ ((kindsUpTo (tokensOf ps) region.span.start).reverse ++ _) = some region.field
        rw [hnone, hregion, List.reverse_nil, List.nil_append, ← fieldName?_eq_backName?, hfield]
      · exact ih hafter b hb

end Extract

open Extract in
/-- Each region is attributed to a name in front of it that has a colon behind it, and behind a declaration to the name
that is found there. -/
theorem extract_fields {source : Source} {x : Extraction} (h : extract source = .ok x) :
    ∃ ts, source.tokensOutside x.spans = .ok ts ∧ ∀ r ∈ x.regions,
      (∃ front back, kindsUpTo ts r.span.start = front ++ .name r.field :: back ∧ .colon ∈ back) ∧
      ∀ d : Schema.Declaration, d.kinds <:+ kindsUpTo ts r.span.start → r.field = d.found := by
  obtain ⟨ps, hcourse, hregions, -, htokens⟩ := extract_tokensOutside h
  have hstart := Schema.Cursor.Stands.start source
  refine ⟨tokensOf ps, htokens, ?_⟩
  intro r hr
  rw [hregions] at hr
  obtain ⟨b, hb, rfl⟩ := List.mem_map.1 hr
  have hname := hcourse.backName?_eq hstart b hb
  rw [show State.first.before = [] from rfl, List.map_nil] at hname
  constructor
  · rw [List.append_nil] at hname
    obtain ⟨back, front, heq, hcolon⟩ := exists_of_backName? hname
    refine ⟨front.reverse, back.reverse, ?_, ?_⟩
    · rw [← List.reverse_reverse (kindsUpTo _ _), heq]
      simp
    · simpa using hcolon
  · intro d hd
    obtain ⟨front, heq⟩ := hd
    rw [← heq, List.reverse_append, List.append_assoc, backName?_declaration] at hname
    exact (Option.some.inj hname).symm

/-- A source with a field that has arguments, defaults and directives without arguments. -/
def declaredField : Source := .ofString "type Query \x7b a(x: Int = 1 @e): [Int!] @d \x7b z \x7d \x7d"

/-- The body goes to the field that is declared in front of it. -/
theorem declaredField_found :
    ∃ x, extract declaredField = .ok x ∧ x.spans = [⟨41, 46⟩] ∧ ∀ r ∈ x.regions, r.field = "a" := by
  obtain ⟨x, hextract, hspans⟩ := Extract.exists_of_run declaredField (f := Extraction.spans)
    (a := [⟨41, 46⟩]) (by decide +kernel)
  obtain ⟨ts, hts, hfields⟩ := extract_fields hextract
  let d : Schema.Declaration := ⟨"a", [⟨"x", .named "Int", some ⟨_, .int "1"⟩, [⟨"e", []⟩]⟩],
    .list (.nonNull (.named "Int")), [⟨"d", []⟩]⟩
  have hkinds : (declaredField.tokensOutside x.spans).map (Extract.kindsUpTo · 41) =
      .ok ([.name "type", .name "Query", .openBrace] ++ d.kinds) := by
    rw [hspans]
    decide +kernel
  rw [hts] at hkinds
  refine ⟨x, hextract, hspans, fun r hr => ?_⟩
  have hstart : r.span.start = 41 := by
    have hmem : r.span ∈ x.spans := List.mem_map_of_mem hr
    rw [hspans, List.mem_singleton] at hmem
    rw [hmem]
  refine (hfields r hr).2 d ⟨[.name "type", .name "Query", .openBrace], ?_⟩
  rw [hstart]
  exact (Except.ok.inj hkinds).symm

/-- A source with a field that has a directive with arguments. -/
def appliedDirective : Source := .ofString "type Query \x7b a: Int @d(x: y) \x7b z \x7d \x7d"

/-- The declaration of the field stands in front of the body, but the body goes to the directive. -/
theorem appliedDirective_misplaced :
    ∃ x ts, extract appliedDirective = .ok x ∧ appliedDirective.tokensOutside x.spans = .ok ts ∧
      ∃ d : Schema.Declaration, d.name = "a" ∧ ∃ r ∈ x.regions,
        Extract.kindsUpTo ts r.span.start = [.name "type", .name "Query", .openBrace] ++ d.kinds ∧ r.field = "d" := by
  obtain ⟨x, hextract, hregions⟩ := Extract.exists_of_run appliedDirective (f := Extraction.regions)
    (a := [⟨.query, "d", ⟨29, 34⟩⟩]) (by decide +kernel)
  let d : Schema.Declaration := ⟨"a", [], .named "Int", [⟨"d", [("x", ⟨_, .name "y"⟩)]⟩]⟩
  have hkinds : (appliedDirective.tokensOutside x.spans).map (Extract.kindsUpTo · 29) =
      .ok ([.name "type", .name "Query", .openBrace] ++ d.kinds) := by
    rw [Extraction.spans, hregions]
    decide +kernel
  cases hts : appliedDirective.tokensOutside x.spans with
  | error fault =>
      rw [hts] at hkinds
      cases hkinds
  | ok ts =>
      rw [hts] at hkinds
      refine ⟨x, ts, hextract, hts, d, rfl, ⟨.query, "d", ⟨29, 34⟩⟩, ?_, Except.ok.inj hkinds, rfl⟩
      rw [hregions]
      exact List.mem_singleton_self _

end FieldScript
