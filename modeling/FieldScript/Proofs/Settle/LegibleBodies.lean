import FieldScript.Proofs.Parse.Sound
import FieldScript.Proofs.Settle.Helpers
import FieldScript.Proofs.Settle.Scopes
import FieldScript.Proofs.Syntax.Legible
import FieldScript.Proofs.Validate.FreeNames

/-!
# Settled bodies are legible

Settling makes trees that nobody wrote: temporaries, thunks, joined calls and parameters that move into the body.
All of them can be written down (`settled_legible`), if the body could and passed validation. Every branch and loop
has a block for a body afterwards.
-/

namespace FieldScript

/-! ## Names that settling makes -/

theorem isWordPart_of_charIsDigit {c : Char} (h : c.isDigit = true) : Token.isWordPart c = true := by
  have hascii : c.toNat < 0x80 := by
    simp only [Char.isDigit, Bool.and_eq_true, decide_eq_true_eq, ge_iff_le, UInt32.le_iff_toNat_le] at h
    have hle : c.toNat ≤ 57 := h.2
    omega
  simp [Token.isWordPart, Text.isLetterOrNumber, Text.isNumber, hascii, h]

/-- No word with a meaning of its own starts with an underscore. -/
theorem head_of_keyword (k : Keyword) : k.text.toList.head? ≠ some '_' := by
  cases k <;> decide

theorem head_of_reserved : ∀ word ∈ reservedWords, word.toList.head? ≠ some '_' := by
  decide

theorem isName_of_head {name : String} {rest : List Char} (hname : name.toList = '_' :: rest)
    (hrest : ∀ c ∈ rest, Token.isWordPart c = true) : IsName name := by
  have hhead : name.toList.head? = some '_' := by rw [hname]; rfl
  refine ⟨⟨'_', rest, hname, by decide, hrest⟩, .inl ?_⟩
  unfold Token.wordKind
  cases hk : Keyword.ofWord? name with
  | some k => exact absurd (Token.text_of_ofWord? hk ▸ hhead) (head_of_keyword k)
  | none =>
      have hnot : name ∉ reservedWords := fun hword => head_of_reserved name hword hhead
      simp [hnot]

theorem isName_temporaryName (n : Nat) : IsName (Settle.temporaryName n) := by
  have hdigits := List.all_eq_true.1 (Awaited.isDigit_repr n)
  have hname : (Settle.temporaryName n).toList = '_' :: (Nat.repr n).toList := by simp [Settle.temporaryName]
  exact isName_of_head hname fun c hc => isWordPart_of_charIsDigit (hdigits c hc)

theorem isName_promise : IsName "Promise" :=
  ⟨⟨'P', ['r', 'o', 'm', 'i', 's', 'e'], rfl, by decide, List.all_eq_true.1 (by decide)⟩, .inl rfl⟩

theorem isName_undefined : IsName "undefined" :=
  ⟨⟨'u', ['n', 'd', 'e', 'f', 'i', 'n', 'e', 'd'], rfl, by decide, List.all_eq_true.1 (by decide)⟩, .inl rfl⟩

theorem isWord_all : Token.IsWord "all".toList :=
  ⟨'a', ['l', 'l'], rfl, by decide, List.all_eq_true.1 (by decide)⟩

namespace Admissible

variable {debug : Bool} {n : Node} {ns ns' : List Node}

theorem of_cons (h : Admissible debug (n :: ns)) : Admissible debug ns := (List.forall_mem_cons.1 h).2

theorem left (h : Admissible debug (ns ++ ns')) : Admissible debug ns := (List.forall_mem_append.1 h).1

theorem right (h : Admissible debug (ns ++ ns')) : Admissible debug ns' := (List.forall_mem_append.1 h).2

end Admissible

namespace Settle

open Walk (Ensures)

variable {α β : Type} {debug : Bool}

/-! ## Steps that keep what is hoisted legible -/

/-- A step after which the declarations that wait are legible if they were, and its result is as told. -/
def Keeps (x : Walk α) (P : α → Prop) : Prop :=
  ∀ out s, LegibleStmts true s.hoisted → Ensures x out s fun a s' => P a ∧ LegibleStmts true s'.hoisted

namespace Keeps

variable {x : Walk α} {f : α → Walk β} {P Q : α → Prop} {R : β → Prop}

theorem pure {a : α} (h : P a) : Keeps (Pure.pure a) P := fun _ _ hs => Ensures.pure ⟨h, hs⟩

theorem bind (hx : Keeps x P) (hf : ∀ a, P a → Keeps (f a) R) : Keeps (x >>= f) R :=
  fun out s hs => Ensures.bind (hx out s hs) fun a s' h => hf a h.1 out s' h.2

theorem mono (hx : Keeps x P) (h : ∀ a, P a → Q a) : Keeps x Q :=
  fun out s hs => (hx out s hs).mono fun a _ hpost => ⟨h a hpost.1, hpost.2⟩

/-- A step that leaves the declarations alone. -/
theorem skip (hx : ∀ out s, Ensures x out s fun _ s' => s'.hoisted = s.hoisted) : Keeps x fun _ => True :=
  fun out s hs => (hx out s).mono fun _ _ heq => ⟨trivial, heq ▸ hs⟩

theorem ite {c : Prop} [Decidable c] {y : Walk α} (hx : c → Keeps x P) (hy : ¬c → Keeps y P) :
    Keeps (if c then x else y) P :=
  fun out s hs => Ensures.ite (fun hc => hx hc out s hs) fun hc => hy hc out s hs

theorem inScope (hx : Keeps x P) : Keeps (Settle.inScope x) P :=
  fun out s hs => inScope_ensures (hx out { s with locals := s.locals.push } hs)

theorem collecting (hx : Keeps x P) : Keeps (Settle.collecting x) fun r => P r.1 ∧ LegibleStmts true r.2 :=
  fun out s hs => collecting_ensures ((hx out { s with hoisted := [] } trivial).mono fun _ _ h => ⟨h, hs⟩)

theorem framed (isAsync : Bool) (hx : Keeps x P) : Keeps (Settle.framed isAsync x) fun r => P r.1 :=
  fun out s hs => framed_ensures (hx out { s with awaits := isAsync } hs)

theorem markAwait : Keeps Settle.markAwait fun _ => True := skip fun _ _ => markAwait_ensures rfl

theorem markAwait_if {c : Prop} [Decidable c] {f : Unit → Walk β} (hf : Keeps (f ()) R) :
    Keeps (if c then Settle.markAwait >>= f else f ()) R :=
  ite (fun _ => bind markAwait fun _ _ => hf) fun _ => hf

theorem declareAll (names : List String) : Keeps (Settle.declareAll names) fun _ => True :=
  skip fun _ _ => declareAll_ensures rfl

theorem noteName (name : String) : Keeps (Settle.noteName name) fun _ => True :=
  skip fun _ _ => noteName_ensures fun _ => rfl

theorem callsAsync (callee : Expr) : Keeps (Settle.callsAsync callee) fun _ => True :=
  skip fun _ _ => callsAsync_ensures rfl

theorem temporary : Keeps Settle.temporary fun name => IsName name :=
  fun _ _ hs => temporary_ensures ⟨isName_temporaryName _, hs⟩

end Keeps

/-! ## Trees that settling makes -/

theorem awaited_legible {e : Expr} (h : e.Legible true) : (awaited e).Legible true := h

theorem temporaryStmt_legible (n : Nat) {e : Expr} (h : e.Legible true) : (temporaryStmt n e).Legible true :=
  ⟨nofun, isName_temporaryName n, awaited_legible h, trivial⟩

theorem returning_legible {decls : List Stmt} {e : Expr} (hdecls : LegibleStmts true decls) (h : e.Legible true) :
    LegibleStmts true (decls ++ [returning e]) :=
  legibleStmts_append.2 ⟨hdecls, h, trivial⟩

theorem thunk_legible {decls : List Stmt} {e : Expr} (hdecls : LegibleStmts true decls) (h : e.Legible true) :
    (thunk decls e).Legible true :=
  ⟨⟨trivial, returning_legible hdecls h⟩, trivial⟩

theorem joinAll_legible {call : Expr} (h : call.Legible true) : (joinAll call).Legible true :=
  ⟨⟨isName_promise, isWord_all⟩, h, trivial⟩

/-! ## Positions -/

/-- What an expression becomes: a legible one, a name the same name, a member a member. -/
structure Kept (e : Expr) (r : Expr × Bool) : Prop where
  legible : r.1.Legible true
  member : e.isPlainMember = true → r.1.isPlainMember = true
  name : ∀ x span, e = .identifier x span → r = (e, false)

/-- The same where a pending value has been awaited. -/
structure KeptValue (e e' : Expr) : Prop where
  legible : e'.Legible true
  name : ∀ x span, e = .identifier x span → e' = e

theorem inPlace_legible {e : Expr} {visited : Visited} (h : Keeps visited (Kept e)) : Keeps (inPlace visited) (KeptValue e) := by
  intro out s hs
  refine inPlace_ensures (h out s hs) ?_ ?_
  · rintro e' s' ⟨hkept, hs'⟩
    refine ⟨⟨awaited_legible hkept.legible, fun x span heq => ?_⟩, hs'⟩
    cases hkept.name x span heq
  · rintro e' s' ⟨hkept, hs'⟩
    refine ⟨⟨hkept.legible, fun x span heq => ?_⟩, hs'⟩
    exact congrArg Prod.fst (hkept.name x span heq)

theorem asObject_legible {e : Expr} {visited : Visited} (h : Keeps visited (Kept e)) :
    Keeps (asObject visited) fun e' => e'.Legible true := by
  intro out s hs
  refine asObject_ensures (h out s hs) ?_ ?_
  · rintro e' s' ⟨hkept, hs'⟩
    exact ⟨isName_temporaryName _, legibleStmts_append.2 ⟨hs', temporaryStmt_legible _ hkept.legible, trivial⟩⟩
  · rintro e' s' ⟨hkept, hs'⟩
    exact ⟨hkept.legible, hs'⟩

theorem lazily_legible {e : Expr} {visited : Visited} (h : Keeps visited (Kept e)) :
    Keeps (lazily visited) fun e' => e'.Legible true := by
  intro out s hs
  refine lazily_ensures (inPlace_legible h out { s with hoisted := [] } trivial) ?_ ?_
  · rintro e' s' ⟨hkept, -⟩ -
    exact ⟨hkept.legible, hs⟩
  · rintro e' s' ⟨hkept, hs'⟩ -
    exact ⟨thunk_legible hs' hkept.legible, hs⟩

theorem placed_keeps {step : Walk Stmt} {P : Stmt → Prop} (h : Keeps step fun s => s.Legible true ∧ P s) :
    Keeps (placed step) fun out => LegibleStmts true out ∧ ∃ decls s, out = decls ++ [s] ∧ P s := by
  intro out s hs
  refine placed_ensures ((h out { s with hoisted := [] } trivial).mono ?_)
  rintro stmt s' ⟨⟨hstmt, hP⟩, hs'⟩
  exact ⟨⟨legibleStmts_append.2 ⟨hs', hstmt, trivial⟩, s'.hoisted, stmt, rfl, hP⟩, hs⟩

/-! ## Parts of functions and statements -/

/-- What a statement becomes: legible statements, of which the last one is a block if it was one. -/
structure KeptStmts (s : Stmt) (out : List Stmt) : Prop where
  legible : LegibleStmts true out
  block : s.isBlock = true → ∃ decls b, out = decls ++ [Stmt.block b]

theorem placed_keptStmts {s : Stmt} {step : Walk Stmt}
    (h : Keeps step fun s' => s'.Legible true ∧ (s.isBlock = true → s'.isBlock = true)) :
    Keeps (placed step) (KeptStmts s) := by
  refine (placed_keeps h).mono ?_
  rintro out ⟨hout, decls, s', rfl, hblock⟩
  refine ⟨hout, fun hs => ?_⟩
  cases s' with
  | block b => exact ⟨decls, b, rfl⟩
  | _ => cases hblock hs

/-- The body of a branch or loop is a block. -/
theorem bodyOf_legible {body : Stmt} {out : List Stmt} (h : KeptStmts body out) :
    (bodyOf body out).isBlock = true ∧ (bodyOf body out).Legible true := by
  unfold bodyOf
  split
  · rename_i b s
    obtain ⟨decls, b', heq⟩ := h.block rfl
    cases decls with
    | nil =>
        cases heq
        exact ⟨rfl, h.legible.1⟩
    | cons d decls =>
        have hlength := congrArg List.length heq
        simp at hlength
  · exact ⟨rfl, h.legible⟩

/-- A parameter that moves into the body. -/
theorem moveParam_keeps {p : Pattern} (h : p.Legible true .bind .param) :
    Keeps (moveParam p) fun r => r.1.Legible true .bind .param ∧ r.2.Legible true := by
  refine .bind .temporary fun name hname => ?_
  cases p with
  | ident id => exact .pure ⟨hname, nofun, h, hname, trivial⟩
  | array elements span => exact .pure ⟨hname, nofun, h, hname, trivial⟩
  | object props span => exact .pure ⟨hname, nofun, h, hname, trivial⟩
  | assign target default =>
      exact .pure ⟨hname, nofun, h.2.1, ⟨⟨hname, isName_undefined⟩, h.2.2, hname⟩, trivial⟩
  | rest inner =>
      cases inner with
      | assign target default => cases h.2.1
      | _ => exact .pure ⟨⟨rfl, hname⟩, nofun, h.2, hname, trivial⟩
  | member e => cases h.1
  | hole => cases h

theorem param_keeps {visited : Walk Pattern} (h : Keeps visited fun p => p.Legible true .bind .param) (moved : Bool) :
    Keeps (param visited moved) fun r => r.1.Legible true .bind .param ∧ LegibleStmts true r.2 := by
  refine .bind (h.collecting.framed false) ?_
  rintro ⟨⟨p, decls⟩, flagged⟩ ⟨hp, hdecls⟩
  refine .markAwait_if (.ite (fun _ => ?_) fun _ => ?_)
  · refine .bind (moveParam_keeps hp) ?_
    rintro ⟨slot, decl⟩ ⟨hslot, hdecl⟩
    exact .bind (.declareAll _) fun _ _ => .pure ⟨hslot, legibleStmts_append.2 ⟨hdecls, hdecl, trivial⟩⟩
  · exact .bind (.declareAll _) fun _ _ => .pure ⟨hp, trivial⟩

theorem withMoved_legible {moved : List Stmt} {body : ArrowBody} (hmoved : LegibleStmts true moved)
    (hbody : body.Legible true) (span : Span) : (withMoved moved body span).Legible true := by
  unfold withMoved
  split
  · exact hbody
  · cases body with
    | expr e => exact returning_legible hmoved hbody
    | block b =>
        obtain ⟨stmts, span⟩ := b
        exact legibleStmts_append.2 ⟨hmoved, hbody⟩

theorem exprBody_keeps {e : Expr} {visited : Visited} (h : Keeps visited (Kept e)) (bare : Bool) (span : Span) :
    Keeps (exprBody bare visited span) fun body => body.Legible true := by
  refine .bind (inPlace_legible h).collecting ?_
  rintro ⟨e', decls⟩ ⟨he', hdecls⟩
  exact .ite (fun _ => .pure (returning_legible hdecls he'.legible)) fun _ => .pure he'.legible

theorem noteFunction_keeps (target : Pattern) (init : Option Expr) : Keeps (noteFunction target init) fun _ => True := by
  unfold noteFunction
  split
  · exact .ite (fun _ => .skip fun _ _ => rfl) fun _ => .pure trivial
  · exact .pure trivial

/-- A declarator whose parts are legible. -/
def LegibleDeclarator (d : Declarator) : Prop := LegibleDeclarators true [d]

theorem declarator_keeps {target : Pattern} {init : Option Expr} (htarget : target.Legible true .bind .target)
    (hinit : LegibleOption true init) (span : Span) : Keeps (declarator target init span) LegibleDeclarator :=
  .bind (.declareAll _) fun _ _ => .bind (noteFunction_keeps _ _) fun _ _ => .pure ⟨htarget, hinit, trivial⟩

/-! ## The walk -/

/-- What a pattern becomes. -/
structure KeptPattern (mode : Render.Mode) (place : Place) (p p' : Pattern) : Prop where
  legible : p'.Legible true mode place
  simple : p.isSimple = true → p'.isSimple = true
  ident : ∀ id, p = .ident id → p' = p
  default : ∀ id default, p = .assign (.ident id) default → ∃ default', p' = .assign (.ident id) default'

/-- What a pattern becomes that is neither a name nor one with a default. -/
theorem KeptPattern.of_legible {mode : Render.Mode} {place : Place} {p p' : Pattern} (h : p'.Legible true mode place)
    (hsimple : p.isSimple = true → p'.isSimple = true := by exact nofun) (hident : ∀ id, p ≠ .ident id := by exact nofun)
    (hdefault : ∀ target default, p ≠ .assign target default := by exact nofun) : KeptPattern mode place p p' :=
  ⟨h, hsimple, fun id heq => absurd heq (hident id), fun _ _ heq => absurd heq (hdefault _ _)⟩

theorem KeptPattern.isIdent {mode : Render.Mode} {place : Place} {p p' : Pattern} (h : KeptPattern mode place p p')
    (hp : p.isIdent = true) : p'.isIdent = true := by
  cases p with
  | ident id => rw [h.ident id rfl]; rfl
  | _ => cases hp

/-- A declarator that has been visited. -/
theorem declared_keeps {target : Pattern} {init : Option Expr} {visitTarget : Walk Pattern} {visit : Expr → Walk Expr}
    (htarget : Keeps visitTarget (KeptPattern .bind .target target))
    (hinit : Keeps (optionally visit init) (LegibleOption true)) (span : Span) :
    Keeps (do
      let target ← visitTarget
      let init ← optionally visit init
      declarator target init span) LegibleDeclarator :=
  .bind htarget fun _ htarget' => .bind hinit fun _ hinit' =>
    declarator_keeps htarget'.legible hinit' span

/-- The declarators that wait at the end of a declaration. -/
theorem declareWaiting_legible {kind : DeclKind} {waiting : List Declarator} {span : Span}
    (h : LegibleDeclarators true waiting) :
    LegibleStmts true (if waiting.isEmpty then [] else [declareStmt kind waiting span]) := by
  cases waiting with
  | nil => exact trivial
  | cons d more => exact ⟨⟨nofun, h⟩, trivial⟩

/-- What a key becomes. -/
structure KeptKey (k k' : Key) : Prop where
  access : k.LegibleAccess false → k'.LegibleAccess true
  legible : k.Legible false → k'.Legible true
  name : ∀ id, k = .name id → k' = k

/-- A short entry stays short. -/
theorem KeptPattern.short {mode : Render.Mode} {place : Place} {p p' : Pattern} {k k' : Key}
    (h : KeptPattern mode place p p') (hk : KeptKey k k')
    (hshort : PatternProp.IsShort k p ∧ (mode = .assign → p.isIdent = true)) :
    PatternProp.IsShort k' p' ∧ (mode = .assign → p'.isIdent = true) := by
  obtain ⟨⟨id, span, rfl, hword, hp⟩, hident⟩ := hshort
  refine ⟨⟨id, span, hk.name id rfl, hword, ?_⟩, fun hmode => h.isIdent (hident hmode)⟩
  rcases hp with rfl | ⟨default, rfl⟩
  · exact .inl (h.ident _ rfl)
  · exact .inr (h.default _ _ rfl)

mutual

theorem expr_keeps (e : Expr) (h : e.Legible false) (hn : Admissible debug (Node.ofExpr e)) :
    Keeps (expr e) (Kept e) := by
  match e with
  | .literal _ _ => exact .pure ⟨h, nofun, nofun⟩
  | .identifier name span =>
      exact .bind (.noteName name) fun _ _ => .pure ⟨h, nofun, fun _ _ heq => by rw [heq]⟩
  | .template _ es _ =>
      exact .bind (values_keeps es h.2.2 hn.of_cons) fun _ hes =>
        .pure ⟨⟨hes.2 ▸ h.1, h.2.1, hes.1⟩, nofun, nofun⟩
  | .array es _ => exact .bind (items_keeps es true h hn.of_cons) fun _ hes => .pure ⟨hes, nofun, nofun⟩
  | .object ps _ => exact .bind (properties_keeps ps h hn.of_cons) fun _ hps => .pure ⟨hps, nofun, nofun⟩
  | .member o k optional _ =>
      refine .bind (asObject_legible (expr_keeps o h.1 hn.of_cons.left)) fun o' ho' => ?_
      refine .bind (key_keeps k ?_ hn.of_cons.right) fun k' hk' => .pure ⟨⟨ho', hk'.access h.2⟩, ?_, nofun⟩
      · rintro e rfl
        exact h.2
      · cases optional <;> exact id
  | .call callee args optional _ =>
      refine .bind (.callsAsync callee) fun capability _ => ?_
      refine .bind (inPlace_legible (expr_keeps callee h.1 hn.of_cons.left)) fun callee' hcallee => ?_
      refine .bind (items_keeps args false h.2 hn.of_cons.right) fun args' hargs => ?_
      exact .ite (fun _ => .pure ⟨joinAll_legible ⟨hcallee.legible, hargs⟩, nofun, nofun⟩)
        fun _ => .pure ⟨⟨hcallee.legible, hargs⟩, nofun, nofun⟩
  | .arrow ps body isAsync span =>
      have hinner : Keeps (inScope do
          let (ps, moved) ← params false ps
          let body ← arrowBody span body
          return (ps, withMoved moved body span))
          fun r => LegiblePatterns true .bind .param r.1 ∧ r.2.Legible true := by
        refine .inScope (.bind (params_keeps false ps h.1 hn.of_cons.left) ?_)
        rintro ⟨ps', moved⟩ ⟨hps, hmoved⟩
        exact .bind (arrowBody_keeps span body h.2 hn.of_cons.right) fun body' hbody =>
          .pure ⟨hps, withMoved_legible hmoved hbody span⟩
      refine .bind (hinner.framed isAsync) ?_
      rintro ⟨⟨ps', body'⟩, awaits⟩ hr
      exact .pure ⟨hr, nofun, nofun⟩
  | .function _ => cases hn _ List.mem_cons_self
  | .this _ => cases hn _ List.mem_cons_self
  | .await e _ =>
      refine .bind (inPlace_legible (expr_keeps e h hn.of_cons)) fun e' he' => ?_
      exact .bind .markAwait fun _ _ => .pure ⟨he'.legible, nofun, nofun⟩
  | .unary _ e _ =>
      exact .bind (inPlace_legible (expr_keeps e h hn.of_cons)) fun e' he' => .pure ⟨he'.legible, nofun, nofun⟩
  | .update _ _ p _ =>
      exact .bind (pattern_keeps .assign .target p h.2 hn.of_cons) fun p' hp' =>
        .pure ⟨⟨hp'.simple h.1, hp'.legible⟩, nofun, nofun⟩
  | .binary _ l r _ =>
      refine .bind (inPlace_legible (expr_keeps l h.1 hn.of_cons.left)) fun l' hl' => ?_
      exact .bind (inPlace_legible (expr_keeps r h.2 hn.of_cons.right)) fun r' hr' =>
        .pure ⟨⟨hl'.legible, hr'.legible⟩, nofun, nofun⟩
  | .logical _ l r _ =>
      refine .bind (inPlace_legible (expr_keeps l h.1 hn.of_cons.left)) fun l' hl' => ?_
      exact .bind (lazily_legible (expr_keeps r h.2 hn.of_cons.right)) fun r' hr' =>
        .pure ⟨⟨hl'.legible, hr'⟩, nofun, nofun⟩
  | .conditional test yes no _ =>
      refine .bind (inPlace_legible (expr_keeps test h.1 hn.of_cons.left)) fun test' htest => ?_
      refine .bind (lazily_legible (expr_keeps yes h.2.1 hn.of_cons.right.left)) fun yes' hyes => ?_
      exact .bind (lazily_legible (expr_keeps no h.2.2 hn.of_cons.right.right)) fun no' hno =>
        .pure ⟨⟨htest.legible, hyes, hno⟩, nofun, nofun⟩
  | .assign _ p e _ =>
      refine .bind (pattern_keeps .assign .target p h.2.2.1 hn.of_cons.left) fun p' hp' => ?_
      exact .bind (inPlace_legible (expr_keeps e h.2.2.2 hn.of_cons.right)) fun e' he' =>
        .pure ⟨⟨h.1, h.2.1.imp_right hp'.simple, hp'.legible, he'.legible⟩, nofun, nofun⟩
  | .sequence [] _ => exact absurd h.1 (by simp)
  | .sequence (e :: more) _ =>
      refine .bind (inPlace_legible (expr_keeps e h.2.1 hn.of_cons.left)) fun e' he' => ?_
      refine .bind (lazyValues_keeps more h.2.2 hn.of_cons.right) fun more' hmore => ?_
      refine .pure ⟨⟨?_, he'.legible, hmore.1⟩, nofun, nofun⟩
      have hlength := h.1
      simpa [hmore.2] using hlength

theorem values_keeps (es : List Expr) (h : LegibleExprs false es) (hn : Admissible debug (Node.ofExprs es)) :
    Keeps (values es) fun es' => LegibleExprs true es' ∧ es'.length = es.length := by
  match es with
  | [] => exact .pure ⟨trivial, rfl⟩
  | e :: more =>
      refine .bind (inPlace_legible (expr_keeps e h.1 hn.left)) fun e' he' => ?_
      exact .bind (values_keeps more h.2 hn.right) fun more' hmore => .pure ⟨⟨he'.legible, hmore.1⟩, by simp [hmore.2]⟩

theorem items_keeps (es : List Item) (holes : Bool) (h : LegibleItems false holes es)
    (hn : Admissible debug (Node.ofItems es)) : Keeps (items es) fun es' => LegibleItems true holes es' := by
  match es with
  | [] => exact .pure trivial
  | .hole :: more => exact .bind (items_keeps more holes h.2 hn) fun _ hmore => .pure ⟨h.1, hmore⟩
  | .expr e :: more =>
      refine .bind (inPlace_legible (expr_keeps e h.1 hn.left)) fun e' he' => ?_
      exact .bind (items_keeps more holes h.2 hn.right) fun _ hmore => .pure ⟨he'.legible, hmore⟩
  | .spread e :: more =>
      refine .bind (inPlace_legible (expr_keeps e h.1 hn.left)) fun e' he' => ?_
      exact .bind (items_keeps more holes h.2 hn.right) fun _ hmore => .pure ⟨he'.legible, hmore⟩

theorem lazyValues_keeps (es : List Expr) (h : LegibleExprs false es) (hn : Admissible debug (Node.ofExprs es)) :
    Keeps (lazyValues es) fun es' => LegibleExprs true es' ∧ es'.length = es.length := by
  match es with
  | [] => exact .pure ⟨trivial, rfl⟩
  | e :: more =>
      refine .bind (lazily_legible (expr_keeps e h.1 hn.left)) fun e' he' => ?_
      exact .bind (lazyValues_keeps more h.2 hn.right) fun more' hmore => .pure ⟨⟨he', hmore.1⟩, by simp [hmore.2]⟩

theorem key_keeps (k : Key) (h : ∀ e, k = .computed e → e.Legible false) (hn : Admissible debug (Node.ofKey k)) :
    Keeps (key k) (KeptKey k) := by
  match k with
  | .computed e =>
      exact .bind (inPlace_legible (expr_keeps e (h e rfl) hn)) fun e' he' =>
        .pure ⟨fun _ => he'.legible, fun _ => he'.legible, nofun⟩
  | .name id => exact .pure ⟨fun h => h, fun h => h, fun _ _ => rfl⟩
  | .literal lit => exact .pure ⟨fun h => h, fun h => h, nofun⟩

theorem properties_keeps (ps : List Property) (h : LegibleProperties false ps)
    (hn : Admissible debug (Node.ofProperties ps)) : Keeps (properties ps) fun ps' => LegibleProperties true ps' := by
  match ps with
  | [] => exact .pure trivial
  | .spread e :: more =>
      refine .bind (inPlace_legible (expr_keeps e h.1 hn.left)) fun e' he' => ?_
      exact .bind (properties_keeps more h.2 hn.right) fun _ hmore => .pure ⟨he'.legible, hmore⟩
  | .init k e shorthand _ :: more =>
      have hkey : ∀ e', k = .computed e' → e'.Legible false := by
        rintro e' rfl
        exact h.2.1
      refine .bind (key_keeps k hkey hn.left) fun k' hk' => ?_
      refine .bind (inPlace_legible (expr_keeps e h.2.2.1 hn.right.left)) fun e' he' => ?_
      refine .bind (properties_keeps more h.2.2.2 hn.right.right) fun _ hmore => ?_
      refine .pure ⟨fun hshort => ?_, hk'.legible h.2.1, he'.legible, hmore⟩
      obtain ⟨id, span, hid, hvalue, hword⟩ := h.1 hshort
      exact ⟨id, span, (hk'.name id hid).trans hid, (he'.name _ _ hvalue).trans hvalue, hword⟩

theorem arrowBody_keeps (span : Span) (body : ArrowBody) (h : body.Legible false)
    (hn : Admissible debug (Node.ofArrowBody body)) : Keeps (arrowBody span body) fun body' => body'.Legible true := by
  match body with
  | .expr e => exact exprBody_keeps (expr_keeps e h hn) e.isMemberOrCall span
  | .block b => exact .bind (block_keeps b h hn) fun _ hb => .pure hb

theorem params_keeps (moved : Bool) (ps : List Pattern) (h : LegiblePatterns false .bind .param ps)
    (hn : Admissible debug (Node.ofPatterns ps)) :
    Keeps (params moved ps) fun r => LegiblePatterns true .bind .param r.1 ∧ LegibleStmts true r.2 := by
  match ps with
  | [] => exact .pure ⟨trivial, trivial⟩
  | p :: more =>
      refine .bind (param_keeps ((pattern_keeps .bind .param p h.1 hn.left).mono fun _ hp => hp.legible) moved) ?_
      rintro ⟨p', decls⟩ ⟨hp', hdecls⟩
      refine .bind (params_keeps _ more h.2 hn.right) ?_
      rintro ⟨more', others⟩ ⟨hmore, hothers⟩
      exact .pure ⟨⟨hp', hmore⟩, legibleStmts_append.2 ⟨hdecls, hothers⟩⟩

theorem pattern_keeps (mode : Render.Mode) (place : Place) (p : Pattern) (h : p.Legible false mode place)
    (hn : Admissible debug (Node.ofPattern p)) : Keeps (pattern p) (KeptPattern mode place p) := by
  match p with
  | .ident id => exact .pure ⟨h, fun _ => rfl, fun _ _ => rfl, nofun⟩
  | .array elements _ =>
      exact .bind (patterns_keeps mode .element elements h hn.of_cons) fun _ hps => .pure (.of_legible hps)
  | .object props _ =>
      exact .bind (patternProps_keeps mode props h hn.of_cons) fun _ hps => .pure (.of_legible hps)
  | .assign target default =>
      refine .bind (pattern_keeps mode .target target h.2.1 hn.of_cons.left) fun target' htarget => ?_
      refine .bind (lazily_legible (expr_keeps default h.2.2 hn.of_cons.right)) fun default' hdefault => ?_
      refine .pure ⟨⟨h.1, htarget.legible, hdefault⟩, nofun, nofun, fun id default'' heq => ?_⟩
      cases heq
      exact ⟨default', by rw [htarget.ident id rfl]⟩
  | .rest target =>
      exact .bind (pattern_keeps mode .target target h.2 hn.of_cons) fun _ htarget =>
        .pure (.of_legible ⟨h.1, htarget.legible⟩)
  | .member e =>
      refine .bind (expr_keeps e h.2.2 hn.of_cons) ?_
      rintro ⟨e', pending⟩ he'
      exact .pure (.of_legible ⟨h.1, he'.member h.2.1, he'.legible⟩ fun _ => rfl)
  | .hole => exact .pure (.of_legible h)

theorem patterns_keeps (mode : Render.Mode) (place : Place) (ps : List Pattern) (h : LegiblePatterns false mode place ps)
    (hn : Admissible debug (Node.ofPatterns ps)) : Keeps (patterns ps) fun ps' => LegiblePatterns true mode place ps' := by
  match ps with
  | [] => exact .pure trivial
  | p :: more =>
      refine .bind (pattern_keeps mode place p h.1 hn.left) fun p' hp' => ?_
      exact .bind (patterns_keeps mode place more h.2 hn.right) fun _ hmore => .pure ⟨hp'.legible, hmore⟩

theorem patternProps_keeps (mode : Render.Mode) (ps : List PatternProp) (h : LegiblePatternProps false mode ps)
    (hn : Admissible debug (Node.ofPatternProps ps)) :
    Keeps (patternProps ps) fun ps' => LegiblePatternProps true mode ps' := by
  match ps with
  | [] => exact .pure trivial
  | .init k p shorthand :: more =>
      have hkey : ∀ e', k = .computed e' → e'.Legible false := by
        rintro e' rfl
        exact h.2.1
      refine .bind (key_keeps k hkey hn.left) fun k' hk' => ?_
      refine .bind (pattern_keeps mode .entry p h.2.2.1 hn.right.left) fun p' hp' => ?_
      refine .bind (patternProps_keeps mode more h.2.2.2 hn.right.right) fun _ hmore => ?_
      refine .pure ⟨fun hshort => ?_, hk'.legible h.2.1, hp'.legible, hmore⟩
      exact hp'.short hk' (h.1 hshort)
  | .rest p :: more =>
      refine .bind (pattern_keeps mode .target p h.2.1 hn.left) fun p' hp' => ?_
      refine .bind (patternProps_keeps mode more h.2.2 hn.right) fun _ hmore => ?_
      exact .pure ⟨fun hmode => hp'.isIdent (h.1 hmode), hp'.legible, hmore⟩

theorem block_keeps (b : Block) (h : b.Legible false) (hn : Admissible debug (Node.ofBlock b)) :
    Keeps (block b) fun b' => b'.Legible true := by
  match b with
  | .mk stmts _ => exact .bind (statements_keeps stmts h hn).inScope fun _ hout => .pure hout

theorem statements_keeps (ss : List Stmt) (h : LegibleStmts false ss) (hn : Admissible debug (Node.ofStmts ss)) :
    Keeps (statements ss) fun out => LegibleStmts true out := by
  match ss with
  | [] => exact .pure trivial
  | s :: more =>
      refine .bind (statement_keeps s h.1 hn.left) fun out hout => ?_
      exact .bind (statements_keeps more h.2 hn.right) fun _ hmore => .pure (legibleStmts_append.2 ⟨hout.legible, hmore⟩)

theorem statement_keeps (s : Stmt) (h : s.Legible false) (hn : Admissible debug (Node.ofStmt s)) :
    Keeps (statement s) (KeptStmts s) := by
  match s with
  | .declare (.mk kind ds dspan) span =>
      rw [statement_declare]
      exact (declaration_keeps kind span [] ds trivial h.2 hn.of_cons).mono fun _ hout => ⟨hout, nofun⟩
  | .expr e span =>
      rw [statement_expr]
      refine placed_keptStmts (.bind (inPlace_legible (expr_keeps e h hn.of_cons)) fun _ he' => ?_)
      exact .pure ⟨he'.legible, nofun⟩
  | .return (some e) span =>
      rw [statement_return]
      refine placed_keptStmts (.bind (inPlace_legible (expr_keeps e h hn.of_cons)) fun _ he' => ?_)
      exact .pure ⟨he'.legible, nofun⟩
  | .return none span => exact .pure ⟨⟨trivial, trivial⟩, nofun⟩
  | .cond test yes none span =>
      rw [statement_cond]
      refine placed_keptStmts (.bind (inPlace_legible (expr_keeps test h.2.1 hn.of_cons.left)) fun _ htest => ?_)
      refine .bind (statement_keeps yes h.2.2 hn.of_cons.right.left).inScope fun _ hyes => ?_
      have hbody := bodyOf_legible hyes
      exact .pure ⟨⟨fun _ => hbody.1, htest.legible, hbody.2⟩, nofun⟩
  | .cond test yes (some no) span =>
      rw [statement_cond_else]
      refine placed_keptStmts (.bind (inPlace_legible (expr_keeps test h.2.1 hn.of_cons.left)) fun _ htest => ?_)
      refine .bind (statement_keeps yes h.2.2.1 hn.of_cons.right.left).inScope fun _ hyes => ?_
      refine .bind (statement_keeps no h.2.2.2 hn.of_cons.right.right).inScope fun _ hno => ?_
      have hyes' := bodyOf_legible hyes
      have hno' := bodyOf_legible hno
      exact .pure ⟨⟨fun _ => ⟨hyes'.1, hno'.1⟩, htest.legible, hyes'.2, hno'.2⟩, nofun⟩
  | .while test body span =>
      rw [statement_while]
      refine placed_keptStmts (.bind (lazily_legible (expr_keeps test h.2.1 hn.of_cons.left)) fun _ htest => ?_)
      refine .bind (statement_keeps body h.2.2 hn.of_cons.right).inScope fun _ hout => ?_
      have hbody := bodyOf_legible hout
      exact .pure ⟨⟨fun _ => hbody.1, htest, hbody.2⟩, nofun⟩
  | .doWhile body test span =>
      rw [statement_doWhile]
      refine placed_keptStmts (.bind (statement_keeps body h.2.1 hn.of_cons.left).inScope fun _ hout => ?_)
      refine .bind (lazily_legible (expr_keeps test h.2.2 hn.of_cons.right)) fun _ htest => ?_
      have hbody := bodyOf_legible hout
      exact .pure ⟨⟨fun _ => hbody.1, hbody.2, htest⟩, nofun⟩
  | .for init test update body span =>
      rw [statement_for]
      refine placed_keptStmts (.inScope (.bind (forInit_keeps init h.2.1 hn.of_cons.left) fun _ hinit => ?_))
      refine .bind (lazyOption_keeps test h.2.2.1 hn.of_cons.right.left) fun _ htest => ?_
      refine .bind (lazyOption_keeps update h.2.2.2.1 hn.of_cons.right.right.left) fun _ hupdate => ?_
      refine .bind (statement_keeps body h.2.2.2.2 hn.of_cons.right.right.right).inScope fun _ hout => ?_
      have hbody := bodyOf_legible hout
      exact .pure ⟨⟨fun _ => hbody.1, hinit, htest, hupdate, hbody.2⟩, nofun⟩
  | .block b =>
      rw [statement_block]
      exact placed_keptStmts (.bind (block_keeps b h hn.of_cons) fun _ hb => .pure ⟨hb, fun _ => rfl⟩)
  | .break _ => exact .pure ⟨⟨trivial, trivial⟩, nofun⟩
  | .continue _ => exact .pure ⟨⟨trivial, trivial⟩, nofun⟩
  | .debugger _ => exact .pure ⟨⟨trivial, trivial⟩, nofun⟩
  | .empty _ => exact .pure ⟨⟨trivial, trivial⟩, nofun⟩
  | .function _ => cases hn _ List.mem_cons_self

theorem option_keeps (e : Option Expr) (h : LegibleOption false e) (hn : Admissible debug (Node.ofOption e)) :
    Keeps (optionally (fun e => inPlace (expr e)) e) (LegibleOption true) := by
  match e with
  | none => exact .pure trivial
  | some e => exact .bind (inPlace_legible (expr_keeps e h hn)) fun _ he' => .pure he'.legible

theorem lazyOption_keeps (e : Option Expr) (h : LegibleOption false e) (hn : Admissible debug (Node.ofOption e)) :
    Keeps (optionally (fun e => lazily (expr e)) e) (LegibleOption true) := by
  match e with
  | none => exact .pure trivial
  | some e => exact .bind (lazily_legible (expr_keeps e h hn)) fun _ he' => .pure he'

theorem forInit_keeps (init : ForInit) (h : init.Legible false) (hn : Admissible debug (Node.ofForInit init)) :
    Keeps (forInit init) fun init' => init'.Legible true := by
  match init with
  | .absent => exact .pure trivial
  | .expr e => exact .bind (inPlace_legible (expr_keeps e h hn)) fun _ he' => .pure he'.legible
  | .declare (.mk kind [] span) => exact absurd rfl h.1
  | .declare (.mk kind (.mk target init dspan :: more) span) =>
      rw [forInit_declare]
      refine .bind (declared_keeps (pattern_keeps .bind .target target h.2.1 hn.left)
        (option_keeps init h.2.2.1 hn.right.left) dspan) fun d hd => ?_
      exact .bind (lazyDeclarators_keeps more h.2.2.2 hn.right.right) fun _ hmore =>
        .pure ⟨nofun, legibleDeclarators_append.2 ⟨hd, hmore⟩⟩

theorem lazyDeclarators_keeps (ds : List Declarator) (h : LegibleDeclarators false ds)
    (hn : Admissible debug (Node.ofDeclarators ds)) :
    Keeps (lazyDeclarators ds) fun ds' => LegibleDeclarators true ds' := by
  match ds with
  | [] => exact .pure trivial
  | .mk target init span :: more =>
      rw [lazyDeclarators_cons]
      refine .bind (declared_keeps (pattern_keeps .bind .target target h.1 hn.left)
        (lazyOption_keeps init h.2.1 hn.right.left) span) fun d hd => ?_
      exact .bind (lazyDeclarators_keeps more h.2.2 hn.right.right) fun _ hmore =>
        .pure (legibleDeclarators_append.2 ⟨hd, hmore⟩)

theorem declaration_keeps (kind : DeclKind) (span : Span) (waiting ds : List Declarator)
    (hwaiting : LegibleDeclarators true waiting) (h : LegibleDeclarators false ds)
    (hn : Admissible debug (Node.ofDeclarators ds)) :
    Keeps (declaration kind span waiting ds) fun out => LegibleStmts true out := by
  match ds with
  | [] => exact .pure (declareWaiting_legible hwaiting)
  | .mk target init dspan :: more =>
      rw [declaration_cons]
      refine .bind (declared_keeps (pattern_keeps .bind .target target h.1 hn.left)
        (option_keeps init h.2.1 hn.right.left) dspan).collecting ?_
      rintro ⟨d, decls⟩ ⟨hd, hdecls⟩
      refine .ite (fun hsplit => ?_) fun _ => ?_
      · refine .bind (declaration_keeps kind span [d] more hd h.2.2 hn.right.right) fun out hout => ?_
        have hne : waiting ≠ [] := by
          rintro rfl
          simp at hsplit
        exact .pure ⟨⟨hne, hwaiting⟩, legibleStmts_append.2 ⟨hdecls, hout⟩⟩
      · refine .bind (declaration_keeps kind span (waiting ++ [d]) more
          (legibleDeclarators_append.2 ⟨hwaiting, hd⟩) h.2.2 hn.right.right) fun out hout => ?_
        exact .pure (legibleStmts_append.2 ⟨hdecls, hout⟩)

end

/-! ## Whole bodies -/

theorem isName_prelude : ∀ name ∈ Prelude.names, IsName name := by
  have hhead : ∀ name ∈ Prelude.names, ∃ c rest, name.toList = c :: rest ∧ Token.isWordHead c = true ∧
      (∀ x ∈ rest, Token.isWordPart x = true) ∧ Token.wordKind name = .identifier name := by
    simp only [Prelude.names, Prelude.all, List.map_cons, List.map_nil, List.forall_mem_cons]
    exact ⟨⟨_, _, rfl, by decide, List.all_eq_true.1 (by decide), rfl⟩,
      ⟨_, _, rfl, by decide, List.all_eq_true.1 (by decide), rfl⟩,
      ⟨_, _, rfl, by decide, List.all_eq_true.1 (by decide), rfl⟩, List.forall_mem_nil _⟩
  intro name hname
  obtain ⟨c, rest, hlist, hc, hrest, hkind⟩ := hhead name hname
  exact ⟨⟨c, rest, hlist, hc, hrest⟩, .inl hkind⟩

theorem declaration_legible {name : String} {d : Stmt} (hname : name ∈ Prelude.names)
    (h : Prelude.declaration name = .ok d) : d.Legible true := by
  have hinline := Stmt.inline_of_isHelper (Prelude.isHelper_of_declaration hname h)
  unfold Prelude.declaration at h
  split at h
  · cases h
  · split at h
    · cases h
    · rename_i init hread
      cases h
      have hnodes : Inline (Node.ofExpr init) := by
        intro n hn
        refine hinline n ?_
        simp [Node.ofStmt, Node.ofVarDecl, Node.ofDeclarators, Node.ofOption, hn]
      exact ⟨nofun, isName_prelude name hname, legible_of_inline init (Parse.expr_sound hread).2.1 hnodes, trivial⟩

end Settle

theorem legibleStmts_of_forall {settled : Bool} {ss : List Stmt} (h : ∀ s ∈ ss, s.Legible settled) :
    LegibleStmts settled ss := by
  induction ss with
  | nil => trivial
  | cons s ss ih =>
      obtain ⟨hs, hss⟩ := List.forall_mem_cons.1 h
      exact ⟨hs, ih hss⟩

/-- A legible body that passes validation becomes a block that is legible as a settled one. -/
theorem settled_legible {body : Expr} {debug : Bool} (h : body.Legible false) (hn : Admissible debug (Node.ofExpr body))
    (capabilities : Capabilities) (args : List String) :
    ∃ b, settle body capabilities args = .ok b ∧ b.Legible true := by
  obtain ⟨helpers, hall, -, hsettle⟩ := settle_written body capabilities args
  refine ⟨_, hsettle, legibleStmts_append.2 ⟨legibleStmts_of_forall fun d hd => ?_, ?_⟩⟩
  · obtain ⟨name, hneeded, hname, -⟩ := hall d hd
    exact Settle.declaration_legible (List.mem_filter.1 hneeded).1 hname
  · have hreturn : Admissible debug (Node.ofStmt (Settle.returning body)) := hn.cons rfl
    exact ((Settle.statement_keeps (Settle.returning body) h hreturn).inScope ⟨capabilities, args⟩ Settle.State.start
      trivial).1.legible

end FieldScript
