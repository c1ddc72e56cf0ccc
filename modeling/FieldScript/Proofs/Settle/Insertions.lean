import FieldScript.Proofs.Settle.Walk
import FieldScript.Proofs.Syntax.Mentions

/-!
# What settling puts into a tree

Settling names a pending value, gives a parameter another name, waits for many values, or puts a function around an
expression. Apart from these insertions a settled tree is made of what the tree was made of, and the names that come
with them are in scope where they stand, once the declarations that wait are in front.

* `Insertion`: what settling puts in, and the leaves of it.
* `Contents`: the leaves of a settled tree and what it mentions out of scope. `Contents.behind` puts declarations in
  front, which brings the names that they declare into scope.
* `Accounted`: contents that are those of other trees with insertions. Accounts can be added up (`Accounted.trans`), also
  behind declarations (`Accounted.behind`). There is one for each insertion.
-/

namespace FieldScript

/-- Something that settling puts into a tree. -/
inductive Insertion where
  /-- A temporary that holds a pending value, and stands for it. -/
  | hoisted (n : Nat)
  /-- A temporary that takes the place of a parameter, which perhaps had a default. -/
  | relocated (n : Nat) (defaulted : Bool)
  /-- Waiting for all values of a call. -/
  | joined (span : Span)
  /-- A function around declarations and an expression, which is called. -/
  | thunk (span : Span)

namespace Insertion

open Settle (temporaryName)

/-- The leaves of an insertion. -/
def leaves : Insertion → Census
  | .hoisted n => {.declared true (temporaryName n), .reference (temporaryName n)}
  | .relocated n defaulted =>
    {.declared false (temporaryName n), .reference (temporaryName n)} +
      if defaulted then {.reference (temporaryName n), .reference "undefined"} else 0
  | .joined s => {.reference "Promise", .named "all", .call none s 1, .mapped s}
  | .thunk s => {.call none s 0}

/-- The number of the temporary of an insertion. -/
def temporary? : Insertion → Option Nat
  | .hoisted n | .relocated n _ => some n
  | _ => none

/-- The leaves of insertions. -/
def census (made : List Insertion) : Census := (made.map leaves).sum

/-- The numbers of the temporaries of insertions. -/
def temporaries (made : List Insertion) : List Nat := made.filterMap temporary?

@[simp] theorem census_nil : census [] = 0 := rfl

@[simp] theorem census_singleton (i : Insertion) : census [i] = i.leaves := by simp [census]

@[simp] theorem census_append (made made' : List Insertion) : census (made ++ made') = census made + census made' := by
  simp [census]

/-- The calls of an insertion. -/
def calls : Insertion → Census
  | .joined s => {.call none s 1}
  | .thunk s => {.call none s 0}
  | _ => 0

/-- Whether an insertion compares a parameter with `undefined`. -/
def testsDefault : Insertion → Bool
  | .relocated _ defaulted => defaulted
  | _ => false

theorem temporaryName_ne_undefined (n : Nat) : temporaryName n ≠ "undefined" := by
  intro h
  have hlist := congrArg String.toList h
  simp [temporaryName] at hlist

theorem filter_isCall_census (made : List Insertion) :
    (census made).filter (Leaf.isCall ·) = (made.map calls).sum := by
  induction made with
  | nil => rfl
  | cons i more ih =>
      have hi : i.leaves.filter (Leaf.isCall ·) = i.calls := by
        cases i with
        | relocated n defaulted => cases defaulted <;> rfl
        | _ => rfl
      rw [← List.singleton_append, census_append, census_singleton, Multiset.filter_add, hi, ih, List.map_append,
        List.sum_append, List.map_singleton, List.sum_singleton]

theorem count_undefined_census (made : List Insertion) :
    (census made).count (Leaf.refersTo "undefined") = made.countP testsDefault := by
  induction made with
  | nil => rfl
  | cons i more ih =>
      have hi : i.leaves.count (Leaf.refersTo "undefined") = [i].countP testsDefault := by
        cases i with
        | hoisted n => simp [leaves, Leaf.refersTo, testsDefault, temporaryName_ne_undefined]
        | relocated n defaulted =>
            cases defaulted <;> simp [leaves, Leaf.refersTo, testsDefault, temporaryName_ne_undefined]
        | joined span => rfl
        | thunk span => rfl
      rw [← List.singleton_append, census_append, census_singleton, Census.count_add, hi, ih, List.countP_append]

end Insertion

/-- The temporaries of insertions are numbered from one number up to another. -/
structure Numbered (made : List Insertion) (n n' : Nat) : Prop where
  le : n ≤ n'
  temporaries : Insertion.temporaries made = List.range' n (n' - n)

namespace Numbered

variable {made made' : List Insertion} {n n' n'' : Nat}

theorem none (n : Nat) (h : Insertion.temporaries made = []) : Numbered made n n :=
  ⟨Nat.le_refl n, by rw [h, Nat.sub_self]; rfl⟩

theorem one {i : Insertion} (h : i.temporary? = some n) : Numbered [i] n (n + 1) :=
  ⟨Nat.le_succ n, by simp [Insertion.temporaries, h]⟩

theorem append (h : Numbered made n n') (h' : Numbered made' n' n'') : Numbered (made ++ made') n n'' := by
  refine ⟨Nat.le_trans h.le h'.le, ?_⟩
  have hle := h.le
  have hle' := h'.le
  rw [Insertion.temporaries, List.filterMap_append]
  show Insertion.temporaries made ++ Insertion.temporaries made' = _
  rw [h.temporaries, h'.temporaries]
  have hstart : List.range' n' (n'' - n') = List.range' (n + 1 * (n' - n)) (n'' - n') := by
    congr 1
    omega
  rw [hstart, List.range'_append]
  congr 1
  omega

end Numbered

/-! ## Contents -/

/-- What the names in a pattern are: leaves, and perhaps mentions that these leaves could make. -/
structure Naming where
  leaf : String → Leaf
  mention : String → Mentions
  known : ∀ name, mention name ⊆ (leaf name).mentions

def Naming.parameter : Naming := ⟨.declared false, fun _ => 0, fun _ => Multiset.zero_subset _⟩

def Naming.variable : Naming := ⟨.declared false, fun name => {.variable name}, fun _ => Multiset.Subset.refl _⟩

def Naming.target : Naming := ⟨.reference, fun name => {.loose name}, fun _ => Multiset.Subset.refl _⟩

def DeclKind.naming (kind : DeclKind) : Naming where
  leaf := .declared kind.isConst
  mention := kind.mention
  known name := by
    unfold DeclKind.mention
    split
    · exact Multiset.zero_subset _
    · exact Multiset.Subset.refl _

/-- The leaves of settled trees, and what the trees mention. -/
abbrev Contents := Census × Mentions

namespace Contents

/-- What a tree can contain that has given leaves. -/
def source (census : Census) : Contents := (census, census.bind Leaf.mentions)

@[simp] theorem source_zero : source 0 = 0 := rfl

theorem source_add (c c' : Census) : source (c + c') = source c + source c' := by
  rw [source, Multiset.add_bind]
  rfl

def ofExpr (e : Expr) : Contents := (Census.ofExpr true e, Mentions.ofExpr e)
def ofExprs (es : List Expr) : Contents := (Census.ofExprs true es, Mentions.ofExprs es)
def ofItems (es : List Item) : Contents := (Census.ofItems true es, Mentions.ofItems es)
def ofKey (k : Key) : Contents := (Census.ofKey true k, Mentions.ofKey k)
def ofProperties (ps : List Property) : Contents := (Census.ofProperties true ps, Mentions.ofProperties ps)
def ofArrowBody (b : ArrowBody) : Contents := (Census.ofArrowBody true b, Mentions.ofArrowBody b)
def ofPattern (v : Naming) (p : Pattern) : Contents := (Census.ofPattern true v.leaf p, Mentions.ofPattern v.mention p)
def ofPatterns (v : Naming) (ps : List Pattern) : Contents :=
  (Census.ofPatterns true v.leaf ps, Mentions.ofPatterns v.mention ps)
def ofPatternProps (v : Naming) (ps : List PatternProp) : Contents :=
  (Census.ofPatternProps true v.leaf ps, Mentions.ofPatternProps v.mention ps)
def ofOption (e : Option Expr) : Contents := (Census.ofOption true e, Mentions.ofOption e)
def ofStmt (s : Stmt) : Contents := (Census.ofStmt true s, Mentions.ofStmt s)
def ofStmts (ss : List Stmt) : Contents := (Census.ofStmts true ss, Mentions.ofStmts ss)
def ofBlock (b : Block) : Contents := (Census.ofBlock true b, Mentions.ofBlock b)
def ofDeclarators (v : Naming) (ds : List Declarator) : Contents :=
  (Census.ofDeclarators true v.leaf ds, Mentions.ofDeclarators v.mention ds)
def ofForInit (init : ForInit) : Contents := (Census.ofForInit true init, Mentions.ofForInit init 0)

/-- Parameters and what moves into the body of their function. -/
def ofParams (r : List Pattern × List Stmt) : Contents :=
  (Census.ofPatterns true Naming.parameter.leaf r.1 + Census.ofStmts true r.2,
    Mentions.ofParams r.1 (Mentions.ofStmts r.2))

/-- Contents behind declarations. -/
def behind (ds : List Stmt) (c : Contents) : Contents :=
  (Census.ofStmts true ds + c.1, Mentions.ofStmts ds + Mentions.behind (ds.flatMap Stmt.boundNames) c.2)

@[simp] theorem behind_nil (c : Contents) : behind [] c = c := by
  simp [behind]

theorem behind_append (xs ys : List Stmt) (c : Contents) : behind (xs ++ ys) c = behind xs (behind ys c) := by
  simp only [behind, Census.ofStmts_append, Mentions.ofStmts_append, List.flatMap_append, Mentions.behind_append,
    Mentions.behind_add, add_assoc]

theorem behind_ofStmts (xs ys : List Stmt) : behind xs (ofStmts ys) = ofStmts (xs ++ ys) := by
  simp only [behind, ofStmts, Census.ofStmts_append, Mentions.ofStmts_append]

/-- The same leaves and no more mentions. -/
structure Under (d c : Contents) : Prop where
  census : d.1 = c.1
  mentions : d.2 ⊆ c.2

namespace Under

variable {c c' d d' : Contents}

theorem refl (c : Contents) : Under c c := ⟨rfl, Multiset.Subset.refl _⟩

theorem of_eq (h : d = c) : Under d c := h ▸ refl d

theorem trans {e : Contents} (h : Under d c) (h' : Under c e) : Under d e :=
  ⟨h.census.trans h'.census, Multiset.Subset.trans h.mentions h'.mentions⟩

theorem behind (h : Under d c) (ds : List Stmt) : Under (behind ds d) (behind ds c) :=
  ⟨congrArg (Census.ofStmts true ds + ·) h.census,
    Mentions.add_subset_add (Multiset.Subset.refl _) (Mentions.behind_mono _ h.mentions)⟩

end Under

/-- Whether a mention is one of given contents, or of a name that is at hand everywhere. -/
def Knows (c : Contents) (m : Mention) : Prop := m ∈ c.2 ∨ m = .loose "Promise" ∨ m = .loose "undefined"

end Contents

open Contents (Under)

/-! ## Accounts -/

/-- Contents that are those of other trees with insertions. -/
structure Accounted (made : List Insertion) (total c : Contents) : Prop where
  census : c.1 = total.1 + Insertion.census made
  mentions : ∀ m ∈ c.2, total.Knows m

namespace Accounted

variable {made made' : List Insertion} {total c d k : Contents}

theorem refl (c : Contents) : Accounted [] c c := ⟨by simp, fun _ hm => .inl hm⟩

theorem under (h : Accounted made total c) (hd : Under d c) : Accounted made total d :=
  ⟨hd.census.trans h.census, fun m hm => h.mentions m (hd.mentions hm)⟩

theorem of_under (h : Under d c) : Accounted [] c d := (refl c).under h

theorem one {i : Insertion} (hcensus : d.1 = c.1 + i.leaves) (hmentions : ∀ m ∈ d.2, c.Knows m) : Accounted [i] c d :=
  ⟨by rw [Insertion.census_singleton, hcensus], hmentions⟩

/-- Insertions one after another. Other trees may be looked at in the second step. -/
theorem trans (h : Accounted made total c) (h' : Accounted made' (c + k) d) : Accounted (made ++ made') (total + k) d := by
  refine ⟨?_, fun m hm => ?_⟩
  · rw [h'.census, Prod.fst_add, h.census, Prod.fst_add, Insertion.census_append]
    abel
  · obtain hm | hm := h'.mentions m hm
    · rcases Multiset.mem_add.1 hm with hm | hm
      · obtain hm | hm := h.mentions m hm
        · exact .inl (Multiset.mem_add.2 (.inl hm))
        · exact .inr hm
      · exact .inl (Multiset.mem_add.2 (.inr hm))
    · exact .inr hm

/-- Declarations in front of what is accounted for. -/
theorem behind (h : Accounted made (c + k) d) (ds : List Stmt) :
    Accounted made (Contents.behind ds c + k) (Contents.behind ds d) := by
  refine ⟨?_, fun m hm => ?_⟩
  · simp only [Contents.behind, h.census, Prod.fst_add]
    abel
  · simp only [Contents.behind, Multiset.mem_add, Mentions.mem_behind] at hm
    obtain hm | ⟨hm, hfree⟩ := hm
    · exact .inl (Multiset.mem_add.2 (.inl (Multiset.mem_add.2 (.inl hm))))
    obtain hm | hm := h.mentions m hm
    · rcases Multiset.mem_add.1 hm with hm | hm
      · exact .inl (Multiset.mem_add.2 (.inl (Multiset.mem_add.2 (.inr (Mentions.mem_behind.2 ⟨hm, hfree⟩)))))
      · exact .inl (Multiset.mem_add.2 (.inr hm))
    · exact .inr hm

end Accounted

/-! ## Trees that settling makes -/

namespace Contents

open Settle

theorem ofStmts_singleton (s : Stmt) : ofStmts [s] = ofStmt s := by
  simp [ofStmts, ofStmt]

theorem ofStmt_returning (e : Expr) : ofStmt (returning e) = ofExpr e :=
  Prod.ext (Census.ofStmt_returning e) (Mentions.ofStmt_returning e)

/-- An expression behind declarations, in a block that returns it. -/
theorem ofStmts_returning (decls : List Stmt) (e : Expr) :
    ofStmts (decls ++ [returning e]) = behind decls (ofExpr e) := by
  rw [← behind_ofStmts, ofStmts_singleton, ofStmt_returning]

theorem ofStmt_bodyOf (body : Stmt) (outs : List Stmt) : ofStmt (bodyOf body outs) = ofStmts outs := by
  unfold bodyOf
  split
  · rw [ofStmts_singleton]
  · rfl

/-- Statements behind others. -/
theorem ofStmts_append_under (xs ys : List Stmt) :
    Under (ofStmts (xs ++ ys)) (ofStmts xs + ofStmts ys) := by
  refine ⟨Census.ofStmts_append xs ys, ?_⟩
  show Mentions.ofStmts (xs ++ ys) ⊆ _
  rw [Mentions.ofStmts_append]
  exact Mentions.add_subset_add (Multiset.Subset.refl _) (Mentions.behind_subset _ _)

theorem ofArrowBody_withMoved (moved : List Stmt) (body : ArrowBody) (span : Span) :
    ofArrowBody (withMoved moved body span) = behind moved (ofArrowBody body) := by
  cases moved with
  | nil => rw [behind_nil]; rfl
  | cons d more =>
      cases body with
      | expr e => exact ofStmts_returning (d :: more) e
      | block b =>
          obtain ⟨stmts, bspan⟩ := b
          exact (behind_ofStmts (d :: more) stmts).symm

/-- Parameters one after another. The declarations of all of them stand behind all of them. -/
theorem ofParams_cons (p : Pattern) (more : List Pattern) (decls others : List Stmt) :
    Under (ofParams (p :: more, decls ++ others))
      (ofParams ([p], decls) + ofParams (more, others)) := by
  refine ⟨?_, fun m hm => ?_⟩
  · simp only [ofParams, Census.ofPatterns, Census.ofStmts_append, Prod.fst_add]
    abel
  · simp only [ofParams, Mentions.ofParams, Prod.snd_add, Multiset.mem_add, Mentions.mem_behind] at hm ⊢
    rw [Mentions.mem_ofParams, Mentions.ofStmts_append] at hm
    rw [Mentions.mem_ofParams more (Mentions.ofStmts others)]
    simp only [Multiset.mem_add, Mentions.mem_behind] at hm ⊢
    tauto

/-- A function whose parameters and body have been visited. -/
theorem ofExpr_arrow_under (ps : List Pattern) (moved : List Stmt) (body : ArrowBody) (isAsync : Bool) (span : Span) :
    Under (ofExpr (.arrow ps (withMoved moved body span) isAsync span))
      (ofParams (ps, moved) + ofArrowBody body) := by
  have hbody := ofArrowBody_withMoved moved body span
  have hcensus : Census.ofArrowBody true (withMoved moved body span) = _ := congrArg Prod.fst hbody
  have hmentions : Mentions.ofArrowBody (withMoved moved body span) = _ := congrArg Prod.snd hbody
  refine ⟨?_, fun m hm => ?_⟩
  · simp only [ofExpr, Census.ofExpr, hcensus, behind, ofParams, ofArrowBody,
      Naming.parameter, Prod.fst_add, add_assoc]
  · simp only [ofExpr, Mentions.ofExpr] at hm
    rw [hmentions, Mentions.mem_ofParams] at hm
    simp only [ofParams, ofArrowBody, behind, Prod.snd_add, Multiset.mem_add,
      Mentions.mem_behind] at hm ⊢
    rw [Mentions.mem_ofParams ps (Mentions.ofStmts moved), Mentions.mem_behind]
    tauto

/-- A declaration that binds a target to a value. -/
theorem ofStmt_declareLet (target : Pattern) (value : Expr) (span : Span) :
    ofStmt (declareStmt .let [.mk target (some value) span] span) =
      ofPattern .variable target + ofExpr value := by
  simp only [ofStmt, declareStmt, Census.ofStmt, Mentions.ofStmt, Census.ofDeclarators, Mentions.ofDeclarators,
    Census.ofOption, Mentions.ofOption, Mentions.behind_zero, add_zero]
  rfl

theorem ofDeclarators_singleton (v : Naming) (target : Pattern) (init : Option Expr) (span : Span) :
    ofDeclarators v [.mk target init span] = ofPattern v target + ofOption init := by
  simp only [ofDeclarators, Census.ofDeclarators, Mentions.ofDeclarators, Mentions.behind_zero, add_zero]
  rfl

/-- Declarators behind others. -/
theorem ofDeclarators_append_under (v : Naming) (xs ys : List Declarator) :
    Under (ofDeclarators v (xs ++ ys)) (ofDeclarators v xs + ofDeclarators v ys) :=
  ⟨Census.ofDeclarators_append v.leaf xs ys, Mentions.ofDeclarators_append_subset v.mention xs ys⟩

/-- Declarators in the first clause of a `for` statement. -/
theorem ofForInit_declare_under (kind : DeclKind) (ds : List Declarator) (span : Span) :
    Under (ofForInit (.declare (.mk kind ds span))) (ofDeclarators kind.naming ds) := by
  refine .of_eq (Prod.ext rfl ?_)
  show Mentions.ofDeclarators kind.mention ds + Mentions.behind _ 0 = _
  rw [Mentions.behind_zero, add_zero]
  rfl

/-- The other parts of a `for` statement stand behind its first clause. -/
theorem ofStmt_for_under (init : ForInit) (test update : Option Expr) (body : Stmt) (span : Span) :
    Under (ofStmt (.for init test update body span))
      (ofForInit init + (ofOption test + (ofOption update + ofStmt body))) := by
  refine ⟨rfl, fun m hm => ?_⟩
  simp only [ofStmt, Mentions.ofStmt] at hm
  simp only [ofForInit, ofOption, ofStmt, Prod.snd_add]
  cases init with
  | absent => exact Multiset.mem_add.2 (.inr hm)
  | expr e => rwa [Mentions.ofForInit, add_zero]
  | declare decl =>
      obtain ⟨kind, ds, dspan⟩ := decl
      rw [Mentions.ofForInit, Multiset.mem_add] at hm
      rw [Mentions.ofForInit, Mentions.behind_zero, add_zero, Multiset.mem_add]
      exact hm.imp id fun hm => Mentions.behind_subset _ _ hm

theorem ofStmt_declareStmt (kind : DeclKind) (ds : List Declarator) (span : Span) :
    ofStmt (declareStmt kind ds span) = ofDeclarators kind.naming ds := rfl

theorem ofExpr_call (callee : Expr) (args : List Item) (optional : Bool) (span : Span) :
    ofExpr (.call callee args optional span) =
      ofExpr callee + ofItems args + (Census.ofCall true callee args span, 0) := by
  refine Prod.ext ?_ ?_
  · show Census.ofCall true callee args span + (Census.ofExpr true callee + Census.ofItems true args) = _
    exact add_comm _ _
  · exact (add_zero _).symm

/-- Waiting for all results of a call, apart from the call. -/
theorem ofExpr_joinAll (call : Expr) : ofExpr (joinAll call) = ofExpr call +
    ({Leaf.reference "Promise", Leaf.named "all", Leaf.call none call.span 1}, {Mention.loose "Promise"}) := by
  have hother : ∀ args, mapsAsync (.member (.identifier "Promise" call.span) (.name ⟨"all", call.span⟩) false call.span)
      args = false := fun _ => rfl
  rw [joinAll, ofExpr_call]
  refine Prod.ext ?_ ?_
  · simp only [ofExpr, ofItems, Census.ofExpr, Census.ofKey, Census.ofItems, Census.ofCall, hother,
      Expr.name?, Prod.fst_add, Bool.and_false, Bool.false_eq_true, if_false, List.length_singleton, add_zero,
      Multiset.insert_eq_cons, ← Multiset.singleton_add]
    abel
  · simp only [ofExpr, ofItems, Mentions.ofExpr, Mentions.ofKey, Mentions.ofItems, Prod.snd_add,
      add_zero]
    exact add_comm _ _

/-- What stands for a parameter in the body of its function: its temporary, or its default. -/
def insteadOf (n : Nat) (defaulted : Bool) : Contents :=
  ({.reference (temporaryName n)} + if defaulted then {.reference (temporaryName n), .reference "undefined"} else 0,
    {.loose (temporaryName n)} + if defaulted then {.loose (temporaryName n), .loose "undefined"} else 0)

theorem insteadOf_mentions {n : Nat} {defaulted : Bool} {m : Mention} (h : m ∈ (insteadOf n defaulted).2) :
    m = .loose (temporaryName n) ∨ m = .loose "undefined" := by
  cases defaulted <;> simp [insteadOf] at h <;> tauto

end Contents

/-! ## Accounts of insertions -/

namespace Accounted

open Settle

/-- A temporary stands for the value that its declaration holds. -/
theorem hoisted (n : Nat) (e : Expr) : Accounted [.hoisted n] (Contents.ofExpr e)
    (Contents.behind [temporaryStmt n e] (Contents.ofExpr (.identifier (temporaryName n) e.span))) := by
  have hstmt : Contents.ofStmt (temporaryStmt n e) =
      Contents.ofExpr e + ({Leaf.declared true (temporaryName n)}, 0) := by
    simp [Contents.ofStmt, Contents.ofExpr, temporaryStmt, declareStmt, Census.ofExpr_awaited, Mentions.ofExpr_awaited,
      DeclKind.isConst, DeclKind.mention, add_comm]
  have hnames : [temporaryStmt n e].flatMap Stmt.boundNames = [temporaryName n] := rfl
  have hfirst : Contents.ofStmts [temporaryStmt n e] = Contents.ofExpr e + ({Leaf.declared true (temporaryName n)}, 0) := by
    rw [Contents.ofStmts_singleton, hstmt]
  have hcensus : Census.ofStmts true [temporaryStmt n e] = Census.ofExpr true e + {.declared true (temporaryName n)} :=
    congrArg Prod.fst hfirst
  have hmentions : Mentions.ofStmts [temporaryStmt n e] = Mentions.ofExpr e :=
    (congrArg Prod.snd hfirst).trans (add_zero _)
  refine .one ?_ fun m hm => ?_
  · show Census.ofStmts true [temporaryStmt n e] + {.reference (temporaryName n)} = _
    rw [hcensus]
    exact add_assoc _ _ _
  · simp only [Contents.behind, hmentions, hnames, Multiset.mem_add, Mentions.mem_behind] at hm
    obtain hm | ⟨hm, hfree⟩ := hm
    · exact .inl hm
    · exact absurd (Multiset.mem_singleton.1 hm) (hfree _ (List.mem_singleton_self _))

/-- A function around declarations and an expression. -/
theorem thunk (decls : List Stmt) (e : Expr) :
    Accounted [.thunk e.span] (Contents.behind decls (Contents.ofExpr e)) (Contents.ofExpr (Settle.thunk decls e)) := by
  have hthunk : Contents.ofExpr (Settle.thunk decls e) =
      Contents.behind decls (Contents.ofExpr e) + ({Leaf.call none e.span 0}, 0) := by
    rw [← Contents.ofStmts_returning]
    simp [Contents.ofExpr, Contents.ofStmts, Settle.thunk, Census.ofExpr_awaited, Mentions.ofExpr_awaited,
      Census.ofCall, mapsAsync, isMap, Expr.name?, add_comm]
  rw [hthunk]
  exact .one rfl fun m hm => .inl (by simpa using hm)

/-- A parameter that has moved into the body of its function, where its temporary is in scope. -/
theorem relocated {n : Nat} {defaulted : Bool} {p slot : Pattern} {decl : Stmt} (decls : List Stmt)
    (hslot : Contents.ofPattern .parameter slot = ({.declared false (temporaryName n)}, 0))
    (hnames : slot.boundNames = [temporaryName n])
    (hdecl : Contents.ofStmt decl = Contents.ofPattern .variable p + Contents.insteadOf n defaulted) :
    Accounted [.relocated n defaulted] (Contents.behind decls (Contents.ofPattern .variable p))
      (Contents.ofParams ([slot], decls ++ [decl])) := by
  have hleaf : Census.ofPattern true Naming.parameter.leaf slot = {.declared false (temporaryName n)} :=
    congrArg Prod.fst hslot
  have hnone : Mentions.ofPattern (fun _ => 0) slot = 0 := congrArg Prod.snd hslot
  have hcensus : Census.ofStmt true decl = Census.ofPattern true Naming.variable.leaf p + (Contents.insteadOf n defaulted).1 :=
    congrArg Prod.fst hdecl
  have hmentions : Mentions.ofStmt decl = Mentions.ofPattern Naming.variable.mention p + (Contents.insteadOf n defaulted).2 :=
    congrArg Prod.snd hdecl
  have hleaves : (Insertion.relocated n defaulted).leaves =
      {.declared false (temporaryName n)} + (Contents.insteadOf n defaulted).1 := by
    rw [Insertion.leaves, Contents.insteadOf, ← add_assoc]
    rfl
  refine .one ?_ fun m hm => ?_
  · show Census.ofPatterns true Naming.parameter.leaf [slot] + Census.ofStmts true (decls ++ [decl]) =
      Census.ofStmts true decls + Census.ofPattern true Naming.variable.leaf p + _
    simp only [Census.ofPatterns, hleaf, Census.ofStmts_append, Census.ofStmts, hcensus, hleaves]
    abel
  · simp only [Contents.ofParams, Mentions.ofParams, hnone, hnames, zero_add, Mentions.ofStmts_append, Mentions.ofStmts,
      Mentions.behind_zero, add_zero, Multiset.mem_add, Mentions.mem_behind, List.forall_mem_singleton, hmentions] at hm
    obtain ⟨hm | ⟨hm | hm, hfree⟩, hscope⟩ := hm
    · exact .inl (Multiset.mem_add.2 (.inl hm))
    · exact .inl (Multiset.mem_add.2 (.inr (Mentions.mem_behind.2 ⟨hm, hfree⟩)))
    · obtain hm | hm := Contents.insteadOf_mentions hm
      · exact absurd hm hscope
      · exact .inr (.inr hm)

/-- A call that has been visited, given what it was made of. -/
theorem call {callee : Expr} {args : List Item} {span : Span} (optional : Bool) (hmaps : mapsAsync callee args = false) :
    Accounted [] (Contents.ofItems args + Contents.ofExpr callee + ({Leaf.call callee.name? span args.length}, 0))
      (Contents.ofExpr (.call callee args optional span)) := by
  refine .of_under (.of_eq ?_)
  rw [Contents.ofExpr_call, Census.ofCall, hmaps, Bool.and_false, add_comm (Contents.ofItems args)]
  rfl

/-- One whose results are waited for. -/
theorem joined {callee : Expr} {args : List Item} {span : Span} (optional : Bool)
    (hmaps : mapsAsync callee args = true) :
    Accounted [.joined span] (Contents.ofItems args + Contents.ofExpr callee + ({Leaf.call callee.name? span args.length}, 0))
      (Contents.ofExpr (joinAll (.call callee args optional span))) := by
  rw [Contents.ofExpr_joinAll, Contents.ofExpr_call, add_comm (Contents.ofItems args)]
  refine .one ?_ fun m hm => ?_
  · simp only [Census.ofCall, hmaps, Bool.and_true, if_true, Insertion.leaves, Expr.span, Prod.fst_add,
      Multiset.insert_eq_cons, ← Multiset.singleton_add]
    abel
  · rw [Prod.snd_add, Multiset.mem_add, Multiset.mem_singleton] at hm
    obtain hm | hm := hm
    · exact .inl hm
    · exact .inr (.inl hm)

end Accounted
end FieldScript
