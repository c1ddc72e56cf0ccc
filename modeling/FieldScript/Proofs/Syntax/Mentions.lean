import FieldScript.Proofs.Syntax.Census

/-!
# Names out of scope

A name is in scope behind its declaration: a name that a statement declares is, for the statements behind it in the same
block and for all that is nested in these; a name of a parameter is, for the parameters behind it and the body. A
reference anywhere else is *loose*. No use is made of names that are declared further behind, nor of functions that are
declared with their keyword, in which every name counts as loose.

* `Mentions.ofExpr` and its companions: the loose references in a tree, and the names of its variables (the names that
  it declares with anything else than `const`, parameters apart).
* `Mentions.behind`: what is left of mentions behind a declaration.

What an expression makes of names that mean something outside of it is told in the same way: it reads them or calls them.
The clauses of a `for` statement keep their names to themselves there, names that are only assigned are not read, and
nothing is said about functions with their keyword.

* `Expr.uses` and its companions, with `Uses.behind`.
-/

namespace FieldScript

/-- What a tree says about a name. -/
inductive Mention where
  /-- A reference with no declaration in front. -/
  | loose (name : String)
  /-- A declaration that is neither a constant nor a parameter. -/
  | variable (name : String)
deriving DecidableEq

def Mention.name : Mention → String
  | .loose name | .variable name => name

/-- What a tree says about names. -/
abbrev Mentions := Multiset Mention

/-- What a leaf could say about a name. -/
def Leaf.mentions : Leaf → Mentions
  | .declared _ name => {.variable name}
  | .reference name => {.loose name}
  | _ => 0

/-- What a declaration says about the names in it. -/
def DeclKind.mention (kind : DeclKind) (name : String) : Mentions :=
  if kind.isConst then 0 else {.variable name}

def Declarator.boundNames : Declarator → List String
  | .mk target _ _ => target.boundNames

/-- The names that a statement declares for the statements behind it. -/
def Stmt.boundNames : Stmt → List String
  | .declare (.mk _ ds _) _ => ds.flatMap Declarator.boundNames
  | _ => []

namespace Mentions

/-- Behind declarations of names, references to them are not loose. -/
def behind (names : List String) (ms : Mentions) : Mentions := ms.filter fun m => ∀ x ∈ names, m ≠ .loose x

/-- In a function with its keyword every name counts. -/
def ofFunction (fn : FunctionDef) : Mentions := (Census.ofFunction fn).bind Leaf.mentions

mutual

/-- The mentions in an expression. -/
def ofExpr : Expr → Mentions
  | .literal _ _ => 0
  | .template _ es _ => ofExprs es
  | .array es _ => ofItems es
  | .object ps _ => ofProperties ps
  | .identifier name _ => {.loose name}
  | .member o k _ _ => ofExpr o + ofKey k
  | .call callee args _ _ => ofExpr callee + ofItems args
  | .arrow ps body _ _ => ofParams ps (ofArrowBody body)
  | .function fn => ofFunction fn
  | .this _ => 0
  | .await e _ => ofExpr e
  | .unary _ e _ => ofExpr e
  | .update _ _ target _ => ofPattern (fun name => {.loose name}) target
  | .binary _ l r _ => ofExpr l + ofExpr r
  | .logical _ l r _ => ofExpr l + ofExpr r
  | .conditional test yes no _ => ofExpr test + (ofExpr yes + ofExpr no)
  | .assign _ target e _ => ofPattern (fun name => {.loose name}) target + ofExpr e
  | .sequence es _ => ofExprs es

/-- The mentions in expressions. -/
def ofExprs : List Expr → Mentions
  | [] => 0
  | e :: more => ofExpr e + ofExprs more

/-- The mentions in elements or arguments. -/
def ofItems : List Item → Mentions
  | [] => 0
  | .expr e :: more => ofExpr e + ofItems more
  | .spread e :: more => ofExpr e + ofItems more
  | .hole :: more => ofItems more

/-- The mentions in a key. -/
def ofKey : Key → Mentions
  | .name _ => 0
  | .literal _ => 0
  | .computed e => ofExpr e

/-- The mentions in the entries of an object. -/
def ofProperties : List Property → Mentions
  | [] => 0
  | .init k e _ _ :: more => ofKey k + (ofExpr e + ofProperties more)
  | .spread e :: more => ofExpr e + ofProperties more

/-- The mentions in the body of an arrow function. -/
def ofArrowBody : ArrowBody → Mentions
  | .expr e => ofExpr e
  | .block b => ofBlock b

/-- The mentions in parameters and, behind them, in the body of their function. -/
def ofParams : List Pattern → Mentions → Mentions
  | [], body => body
  | p :: more, body => ofPattern (fun _ => 0) p + behind p.boundNames (ofParams more body)

/-- The mentions in a pattern, given those that the names in it are. -/
def ofPattern (mention : String → Mentions) : Pattern → Mentions
  | .ident id => mention id.name
  | .array elements _ => ofPatterns mention elements
  | .object props _ => ofPatternProps mention props
  | .assign target default => ofPattern mention target + ofExpr default
  | .rest target => ofPattern mention target
  | .member e => ofExpr e
  | .hole => 0

/-- The mentions in patterns. -/
def ofPatterns (mention : String → Mentions) : List Pattern → Mentions
  | [] => 0
  | p :: more => ofPattern mention p + ofPatterns mention more

/-- The mentions in the entries of an object pattern. -/
def ofPatternProps (mention : String → Mentions) : List PatternProp → Mentions
  | [] => 0
  | .init k target _ :: more => ofKey k + (ofPattern mention target + ofPatternProps mention more)
  | .rest target :: more => ofPattern mention target + ofPatternProps mention more

/-- The mentions in a statement. -/
def ofStmt : Stmt → Mentions
  | .expr e _ => ofExpr e
  | .declare (.mk kind ds _) _ => ofDeclarators kind.mention ds
  | .return e _ => ofOption e
  | .cond test yes no _ => ofExpr test + (ofStmt yes + (match no with
      | none => 0
      | some no => ofStmt no))
  | .while test body _ => ofExpr test + ofStmt body
  | .doWhile body test _ => ofStmt body + ofExpr test
  | .for init test update body _ => ofForInit init (ofOption test + (ofOption update + ofStmt body))
  | .block b => ofBlock b
  | .break _ => 0
  | .continue _ => 0
  | .debugger _ => 0
  | .empty _ => 0
  | .function fn => ofFunction fn

/-- The mentions in an expression that may be left out. -/
def ofOption : Option Expr → Mentions
  | none => 0
  | some e => ofExpr e

/-- The mentions in statements between braces. -/
def ofBlock : Block → Mentions
  | .mk stmts _ => ofStmts stmts

/-- The mentions in statements, of which the later ones stand behind the declarations of the earlier ones. -/
def ofStmts : List Stmt → Mentions
  | [] => 0
  | s :: more => ofStmt s + behind s.boundNames (ofStmts more)

/-- The mentions in declarators, given those that the declared names are. -/
def ofDeclarators (mention : String → Mentions) : List Declarator → Mentions
  | [] => 0
  | .mk target init _ :: more =>
    ofPattern mention target + (ofOption init + behind target.boundNames (ofDeclarators mention more))

/-- The mentions in the first clause of a `for` statement and, behind it, in the rest. -/
def ofForInit : ForInit → Mentions → Mentions
  | .absent, rest => rest
  | .declare (.mk kind ds _), rest => ofDeclarators kind.mention ds + behind (ds.flatMap Declarator.boundNames) rest
  | .expr e, rest => ofExpr e + rest

end

attribute [simp] ofExpr ofExprs ofItems ofKey ofProperties ofArrowBody ofParams ofPattern ofPatterns ofPatternProps ofStmt
  ofOption ofBlock ofStmts ofDeclarators ofForInit

/-! ## Behind declarations -/

variable {m : Mention} {names : List String} {ms ms' : Mentions}

@[simp] theorem mem_behind : m ∈ behind names ms ↔ m ∈ ms ∧ ∀ x ∈ names, m ≠ .loose x := Multiset.mem_filter

theorem behind_subset (names : List String) (ms : Mentions) : behind names ms ⊆ ms := Multiset.filter_subset _ _

theorem behind_mono (names : List String) (h : ms ⊆ ms') : behind names ms ⊆ behind names ms' :=
  fun _ hm => mem_behind.2 ⟨h (mem_behind.1 hm).1, (mem_behind.1 hm).2⟩

@[simp] theorem behind_zero (names : List String) : behind names 0 = 0 := Multiset.filter_zero _

@[simp] theorem behind_nil (ms : Mentions) : behind [] ms = ms :=
  Multiset.filter_eq_self.2 fun _ _ => List.forall_mem_nil _

theorem behind_add (names : List String) (ms ms' : Mentions) :
    behind names (ms + ms') = behind names ms + behind names ms' := Multiset.filter_add _ _ _

theorem behind_append (xs ys : List String) (ms : Mentions) : behind (xs ++ ys) ms = behind xs (behind ys ms) := by
  unfold behind
  rw [Multiset.filter_filter]
  exact Multiset.filter_congr fun m _ => by rw [List.forall_mem_append]

/-- Statements behind others. -/
theorem ofStmts_append (xs ys : List Stmt) :
    ofStmts (xs ++ ys) = ofStmts xs + behind (xs.flatMap Stmt.boundNames) (ofStmts ys) := by
  induction xs with
  | nil => rw [List.nil_append, ofStmts, zero_add, List.flatMap_nil, behind_nil]
  | cons s more ih =>
      rw [List.cons_append, ofStmts, ofStmts, ih, behind_add, ← behind_append, List.flatMap_cons, add_assoc]

theorem ofExpr_awaited (e : Expr) : ofExpr (Settle.awaited e) = ofExpr e := by
  rw [Settle.awaited, ofExpr]

theorem ofStmt_returning (e : Expr) : ofStmt (Settle.returning e) = ofExpr e := by
  rw [Settle.returning, ofStmt, ofOption]

/-- What a body mentions behind parameters is mentioned by the parameters themselves or behind their names. -/
theorem mem_ofParams (ps : List Pattern) (body : Mentions) :
    m ∈ ofParams ps body ↔ m ∈ ofParams ps 0 ∨ m ∈ behind (Pattern.boundNamesOf ps) body := by
  induction ps with
  | nil => simp [ofParams, Pattern.boundNamesOf]
  | cons p more ih =>
      simp only [ofParams, Pattern.boundNamesOf, behind_append, Multiset.mem_add, mem_behind, ih]
      tauto

/-- Declarators behind others mention no more than they do alone. -/
theorem ofDeclarators_append_subset (mention : String → Mentions) (xs ys : List Declarator) :
    ofDeclarators mention (xs ++ ys) ⊆ ofDeclarators mention xs + ofDeclarators mention ys := by
  induction xs with
  | nil => rw [List.nil_append, ofDeclarators, zero_add]; exact Multiset.Subset.refl _
  | cons d more ih =>
      obtain ⟨target, init, span⟩ := d
      intro m hm
      simp only [List.cons_append, ofDeclarators, Multiset.mem_add, mem_behind] at hm ⊢
      obtain hm | hm | ⟨hm, hfree⟩ := hm
      · exact .inl (.inl hm)
      · exact .inl (.inr (.inl hm))
      · obtain hm | hm := Multiset.mem_add.1 (ih hm)
        · exact .inl (.inr (.inr ⟨hm, hfree⟩))
        · exact .inr hm

theorem add_subset_add {ns ns' : Mentions} (h : ms ⊆ ns) (h' : ms' ⊆ ns') : ms + ms' ⊆ ns + ns' := by
  intro m hm
  rcases Multiset.mem_add.1 hm with hm | hm
  · exact Multiset.mem_add.2 (.inl (h hm))
  · exact Multiset.mem_add.2 (.inr (h' hm))

variable {mention mention' : String → Mentions}

mutual

/-- Where the names in a pattern are fewer mentions, the pattern has fewer of them. -/
theorem ofPattern_mono (h : ∀ name, mention name ⊆ mention' name) (p : Pattern) :
    ofPattern mention p ⊆ ofPattern mention' p := by
  cases p with
  | ident id => exact h id.name
  | array elements span => exact ofPatterns_mono h elements
  | object props span => exact ofPatternProps_mono h props
  | assign target default => exact add_subset_add (ofPattern_mono h target) (Multiset.Subset.refl _)
  | rest target => exact ofPattern_mono h target
  | member e => exact Multiset.Subset.refl _
  | hole => exact Multiset.Subset.refl _

theorem ofPatterns_mono (h : ∀ name, mention name ⊆ mention' name) (ps : List Pattern) :
    ofPatterns mention ps ⊆ ofPatterns mention' ps := by
  cases ps with
  | nil => exact Multiset.Subset.refl _
  | cons p more => exact add_subset_add (ofPattern_mono h p) (ofPatterns_mono h more)

theorem ofPatternProps_mono (h : ∀ name, mention name ⊆ mention' name) (ps : List PatternProp) :
    ofPatternProps mention ps ⊆ ofPatternProps mention' ps := by
  match ps with
  | [] => exact Multiset.Subset.refl _
  | .init k target shorthand :: more =>
      exact add_subset_add (Multiset.Subset.refl _)
        (add_subset_add (ofPattern_mono h target) (ofPatternProps_mono h more))
  | .rest target :: more => exact add_subset_add (ofPattern_mono h target) (ofPatternProps_mono h more)

end

end Mentions

/-! ## Uses of names from outside -/

/-- What is made of a name. -/
inductive Use where
  | read (name : String)
  | call (name : String)
deriving DecidableEq

def Use.name : Use → String
  | .read name | .call name => name

/-- The uses of names in a tree. -/
abbrev Uses := List Use

/-- Behind declarations of names, these mean nothing outside. -/
def Uses.behind (names : List String) (us : Uses) : Uses := us.filter fun u => !names.contains u.name

/-- The call of a name. -/
def Expr.calls : Expr → Uses
  | .identifier name _ => [.call name]
  | _ => []

/-- The names that the first clause of a `for` statement declares. -/
def ForInit.boundNames : ForInit → List String
  | .declare (.mk _ ds _) => ds.flatMap Declarator.boundNames
  | _ => []

mutual

/-- The uses of names in an expression. -/
def Expr.uses : Expr → Uses
  | .literal _ _ => []
  | .template _ es _ => usesOfExprs es
  | .array items _ => usesOfItems items
  | .object props _ => usesOfProperties props
  | .identifier name _ => [.read name]
  | .member o k _ _ => o.uses ++ k.uses
  | .call callee args _ _ => callee.calls ++ (callee.uses ++ usesOfItems args)
  | .arrow ps body _ _ => usesOfParams ps ++ Uses.behind (Pattern.boundNamesOf ps) body.uses
  | .function _ => []
  | .this _ => []
  | .await e _ => e.uses
  | .unary _ e _ => e.uses
  | .update _ _ target _ => target.uses
  | .binary _ l r _ => l.uses ++ r.uses
  | .logical _ l r _ => l.uses ++ r.uses
  | .conditional test yes no _ => test.uses ++ (yes.uses ++ no.uses)
  | .assign _ target e _ => target.uses ++ e.uses
  | .sequence es _ => usesOfExprs es

/-- The uses of names in expressions. -/
def usesOfExprs : List Expr → Uses
  | [] => []
  | e :: more => e.uses ++ usesOfExprs more

/-- The uses of names in elements or arguments. -/
def usesOfItems : List Item → Uses
  | [] => []
  | .expr e :: more => e.uses ++ usesOfItems more
  | .spread e :: more => e.uses ++ usesOfItems more
  | .hole :: more => usesOfItems more

/-- The uses of names in a key. -/
def Key.uses : Key → Uses
  | .name _ => []
  | .literal _ => []
  | .computed e => e.uses

/-- The uses of names in the entries of an object. -/
def usesOfProperties : List Property → Uses
  | [] => []
  | .init k e _ _ :: more => k.uses ++ (e.uses ++ usesOfProperties more)
  | .spread e :: more => e.uses ++ usesOfProperties more

/-- The uses of names in the body of an arrow function. -/
def ArrowBody.uses : ArrowBody → Uses
  | .expr e => e.uses
  | .block b => b.uses

/-- The uses of names in parameters. -/
def usesOfParams : List Pattern → Uses
  | [] => []
  | p :: more => p.uses ++ Uses.behind p.boundNames (usesOfParams more)

/-- The uses of names in the expressions inside a pattern. -/
def Pattern.uses : Pattern → Uses
  | .ident _ => []
  | .array elements _ => usesOfPatterns elements
  | .object props _ => usesOfPatternProps props
  | .assign target default => target.uses ++ default.uses
  | .rest target => target.uses
  | .member e => e.uses
  | .hole => []

/-- The uses of names in patterns. -/
def usesOfPatterns : List Pattern → Uses
  | [] => []
  | p :: more => p.uses ++ usesOfPatterns more

/-- The uses of names in the entries of an object pattern. -/
def usesOfPatternProps : List PatternProp → Uses
  | [] => []
  | .init k target _ :: more => k.uses ++ (target.uses ++ usesOfPatternProps more)
  | .rest target :: more => target.uses ++ usesOfPatternProps more

/-- The uses of names in a statement. -/
def Stmt.uses : Stmt → Uses
  | .expr e _ => e.uses
  | .declare (.mk _ ds _) _ => usesOfDeclarators ds
  | .return e _ => usesOfOption e
  | .cond test yes no _ => test.uses ++ (yes.uses ++ (match no with
      | none => []
      | some no => no.uses))
  | .while test body _ => test.uses ++ body.uses
  | .doWhile body test _ => body.uses ++ test.uses
  | .for init test update body _ =>
    init.uses ++ Uses.behind init.boundNames (usesOfOption test ++ (usesOfOption update ++ body.uses))
  | .block b => b.uses
  | .break _ => []
  | .continue _ => []
  | .debugger _ => []
  | .empty _ => []
  | .function _ => []

/-- The uses of names in an expression that may be left out. -/
def usesOfOption : Option Expr → Uses
  | none => []
  | some e => e.uses

/-- The uses of names in statements between braces. -/
def Block.uses : Block → Uses
  | .mk stmts _ => usesOfStmts stmts

/-- The uses of names in statements, of which the later ones stand behind the declarations of the earlier ones. -/
def usesOfStmts : List Stmt → Uses
  | [] => []
  | s :: more => s.uses ++ Uses.behind s.boundNames (usesOfStmts more)

/-- The uses of names in declarators. -/
def usesOfDeclarators : List Declarator → Uses
  | [] => []
  | .mk target init _ :: more =>
    target.uses ++ (usesOfOption init ++ Uses.behind target.boundNames (usesOfDeclarators more))

/-- The uses of names in the first clause of a `for` statement. -/
def ForInit.uses : ForInit → Uses
  | .absent => []
  | .declare (.mk _ ds _) => usesOfDeclarators ds
  | .expr e => e.uses

end

namespace Uses

variable {u : Use} {names : List String} {us us' : Uses}

@[simp] theorem mem_behind : u ∈ behind names us ↔ u ∈ us ∧ u.name ∉ names := by
  simp [behind]

end Uses
end FieldScript
