import FieldScript.Proofs.Parse.Named
import FieldScript.Proofs.Syntax.Nodes
import FieldScript.Validate

/-!
# Free names

The names that an expression refers to without declaring them, by recursion on the expression. A parameter or declarator
binds its names behind itself, a declaration up to the end of its block, and the body of an arrow function, the clauses of
a `for` statement and a block keep theirs to themselves. Validation, which carries the names in scope along, accepts an
expression exactly if its free names are allowed and all its nodes are admissible: there is no `function`, `this`, `await`
or `delete` among them, and no `debugger` unless the body is being debugged. Otherwise it tells of a free name that is not
allowed, or there is an inadmissible node (`Expr.validate_tells`).

A name that it reports stands in the source at the place that it reports, and it is a free name of the body that is not
allowed (`validate_free`).
-/

namespace FieldScript

/-! ## Nodes that validation lets pass -/

/-- Whether a node is one that validation refuses. -/
def Node.isForbidden (debug : Bool) : Node → Bool
  | .expr (.function _) | .expr (.this _) | .expr (.await _ _) | .expr (.unary .delete _ _) => true
  | .stmt (.function _) => true
  | .stmt (.debugger _) => !debug
  | _ => false

/-- All nodes are ones that validation lets pass. -/
def Admissible (debug : Bool) (ns : List Node) : Prop := ∀ n ∈ ns, n.isForbidden debug = false

namespace Admissible

variable {debug : Bool} {n : Node} {ns ns' : List Node}

theorem nil : Admissible debug [] := by simp [Admissible]

theorem cons (hn : n.isForbidden debug = false) (hns : Admissible debug ns) : Admissible debug (n :: ns) :=
  List.forall_mem_cons.2 ⟨hn, hns⟩

theorem append (hns : Admissible debug ns) (hns' : Admissible debug ns') : Admissible debug (ns ++ ns') :=
  List.forall_mem_append.2 ⟨hns, hns'⟩

end Admissible

/-! ## The free names of a tree -/

/-- Those names that are not bound. -/
def unbound (bound : List String) (ids : List Ident) : List Ident := ids.filter fun id => !bound.contains id.name

theorem mem_unbound {bound : List String} {ids : List Ident} {id : Ident} :
    id ∈ unbound bound ids ↔ id ∈ ids ∧ id.name ∉ bound := by
  simp [unbound]

/-- The names that declarators introduce one after another. -/
def declared (ds : List Declarator) : List String := ds.flatMap fun (.mk target _ _) => target.boundNames

/-- The names that the first clause of a loop introduces. -/
def ForInit.declared : ForInit → List String
  | .declare (.mk _ ds _) => FieldScript.declared ds
  | _ => []

/-- The names that a statement introduces for the statements behind it. The body of a conditional or of a loop without
a header of its own introduces them as well, unless it is a block. -/
def Stmt.declared : Stmt → List String
  | .declare (.mk _ ds _) _ => FieldScript.declared ds
  | .cond _ yes none _ => yes.declared
  | .cond _ yes (some no) _ => yes.declared ++ no.declared
  | .while _ body _ => body.declared
  | .doWhile body _ _ => body.declared
  | .function (.mk name _ _ _) => name.toList.map (·.name)
  | _ => []

mutual

/-- The free names of an expression. -/
def Expr.free : Expr → List Ident
  | .literal _ _ => []
  | .template _ es _ => freeOfExprs es
  | .array items _ => freeOfItems items
  | .object props _ => freeOfProperties props
  | .identifier x span => [⟨x, span⟩]
  | .member o k _ _ => o.free ++ k.free
  | .call callee args _ _ => callee.free ++ freeOfItems args
  | .arrow ps body _ _ => freeOfParameters ps ++ unbound (Pattern.boundNamesOf ps) body.free
  | .function fn => fn.free
  | .this _ => []
  | .await e _ => e.free
  | .unary _ e _ => e.free
  | .update _ _ (.ident id) _ => [id]
  | .update _ _ target _ => target.free
  | .binary _ l r _ => l.free ++ r.free
  | .logical _ l r _ => l.free ++ r.free
  | .conditional test yes no _ => test.free ++ (yes.free ++ no.free)
  | .assign _ target e _ => target.free ++ e.free
  | .sequence es _ => freeOfExprs es

/-- The free names of expressions. -/
def freeOfExprs : List Expr → List Ident
  | [] => []
  | e :: more => e.free ++ freeOfExprs more

/-- The free names of elements or arguments. -/
def freeOfItems : List Item → List Ident
  | [] => []
  | .expr e :: more => e.free ++ freeOfItems more
  | .spread e :: more => e.free ++ freeOfItems more
  | .hole :: more => freeOfItems more

/-- The free names of a key. Only a computed one refers to names. -/
def Key.free : Key → List Ident
  | .name _ => []
  | .literal _ => []
  | .computed e => e.free

/-- The free names of the entries of an object. -/
def freeOfProperties : List Property → List Ident
  | [] => []
  | .init k e _ _ :: more => k.free ++ (e.free ++ freeOfProperties more)
  | .spread e :: more => e.free ++ freeOfProperties more

/-- The free names of the body of an arrow function. -/
def ArrowBody.free : ArrowBody → List Ident
  | .expr e => e.free
  | .block b => b.free

/-- The free names of a function with its keyword. -/
def FunctionDef.free : FunctionDef → List Ident
  | .mk name ps body _ =>
    unbound (name.toList.map (·.name)) (freeOfParameters ps ++ unbound (Pattern.boundNamesOf ps) body.free)

/-- The free names of parameters, each of which is bound behind itself. -/
def freeOfParameters : List Pattern → List Ident
  | [] => []
  | p :: more => p.free ++ unbound p.boundNames (freeOfParameters more)

/-- The free names of a pattern: those of its defaults, computed keys and members. The names that it binds or assigns are
not among them. -/
def Pattern.free : Pattern → List Ident
  | .ident _ => []
  | .array elements _ => freeOfPatterns elements
  | .object props _ => freeOfPatternProps props
  | .assign target default => target.free ++ default.free
  | .rest target => target.free
  | .member e => e.free
  | .hole => []

/-- The free names of patterns. -/
def freeOfPatterns : List Pattern → List Ident
  | [] => []
  | p :: more => p.free ++ freeOfPatterns more

/-- The free names of the entries of an object pattern. -/
def freeOfPatternProps : List PatternProp → List Ident
  | [] => []
  | .init k target _ :: more => k.free ++ (target.free ++ freeOfPatternProps more)
  | .rest target :: more => target.free ++ freeOfPatternProps more

/-- The free names of a statement. -/
def Stmt.free : Stmt → List Ident
  | .expr e _ => e.free
  | .declare (.mk _ ds _) _ => freeOfDeclarators ds
  | .return e _ => freeOfOption e
  | .cond test yes no _ => test.free ++ (yes.free ++ match no with
    | none => []
    | some no => unbound yes.declared no.free)
  | .while test body _ => test.free ++ body.free
  | .doWhile body test _ => body.free ++ unbound body.declared test.free
  | .for init test update body _ =>
    init.free ++ unbound init.declared (freeOfOption test ++ (freeOfOption update ++ body.free))
  | .block b => b.free
  | .break _ => []
  | .continue _ => []
  | .debugger _ => []
  | .empty _ => []
  | .function fn => fn.free

/-- The free names of an expression that may be left out. -/
def freeOfOption : Option Expr → List Ident
  | none => []
  | some e => e.free

/-- The free names of statements between braces. -/
def Block.free : Block → List Ident
  | .mk stmts _ => freeOfStmts stmts

/-- The free names of statements, each of which binds its names behind itself. -/
def freeOfStmts : List Stmt → List Ident
  | [] => []
  | s :: more => s.free ++ unbound s.declared (freeOfStmts more)

/-- The free names of declarators, each of which is bound behind itself. -/
def freeOfDeclarators : List Declarator → List Ident
  | [] => []
  | .mk target init _ :: more =>
    freeOfOption init ++ (target.free ++ unbound target.boundNames (freeOfDeclarators more))

/-- The free names of the first clause of a loop. -/
def ForInit.free : ForInit → List Ident
  | .absent => []
  | .declare (.mk _ ds _) => freeOfDeclarators ds
  | .expr e => e.free

end

/-! ## Names in scope -/

namespace NameEnv

theorem isBound_declareAll (env : NameEnv) (names : List String) (key : String) :
    (env.declareAll names).isBound key = (names.contains key || env.isBound key) := by
  unfold declareAll
  induction names generalizing env with
  | nil => rfl
  | cons name names ih =>
      rw [List.foldl_cons, ih, isBound_declare, List.contains_cons]
      cases names.contains key <;> cases (key == name) <;> rfl

theorem declareAll_append (env : NameEnv) (names names' : List String) :
    env.declareAll (names ++ names') = (env.declareAll names).declareAll names' := List.foldl_append

theorem isBound_push (env : NameEnv) (key : String) : env.push.isBound key = env.isBound key := by
  simp [push, isBound]

theorem mem_foldl_addTo {names scope : List String} {key : String} :
    key ∈ names.foldl addTo scope ↔ key ∈ scope ∨ key ∈ names := by
  induction names generalizing scope with
  | nil => simp
  | cons name names ih =>
      have hadd : key ∈ addTo scope name ↔ key = name ∨ key ∈ scope := by
        have h := contains_addTo scope name key
        rw [Bool.eq_iff_iff] at h
        simpa using h
      rw [List.foldl_cons, ih, hadd, List.mem_cons, or_comm (a := key = name), or_assoc]

/-- The names that are listed are those in scope. -/
theorem mem_visible {env : NameEnv} {key : String} : key ∈ env.visible ↔ env.isBound key = true := by
  simp [visible, mem_foldl_addTo, isBound]

theorem isBound_ofList {names : List String} {key : String} : (ofList names).isBound key = true ↔ key ∈ names := by
  simp [ofList, isBound, mem_foldl_addTo]

end NameEnv

/-! ## What validation tells -/

/-- A node that refers to a name. -/
def Node.RefersTo (id : Ident) : Node → Prop
  | .expr (.identifier x span) => id = ⟨x, span⟩
  | .pattern (.ident id') => id = id'
  | _ => False

/-- What a violation shows of a tree with these free names and nodes: a name that is missing, or that a node is not
admissible. -/
def Violation.Shows (debug : Bool) (env : NameEnv) (free : List Ident) (ns : List Node) (v : Violation) : Prop :=
  match v.cause with
  | .unavailable name available =>
    ⟨name, v.span⟩ ∈ free ∧ env.isBound name = false ∧ name ∉ available ∧ ∃ n ∈ ns, n.RefersTo ⟨name, v.span⟩
  | _ => ¬ Admissible debug ns

namespace Validate

/-- A check that accepts exactly the trees whose free names are bound and whose nodes are admissible, with the result as
told, and whose violations show why. -/
def Tells {α : Type} (debug : Bool) (env : NameEnv) (free : List Ident) (ns : List Node) (result : α) :
    Except Violation α → Prop
  | .ok a => a = result ∧ (∀ id ∈ free, env.isBound id.name = true) ∧ Admissible debug ns
  | .error v => v.Shows debug env free ns

namespace Tells

variable {α β : Type} {debug : Bool} {env : NameEnv} {free free' : List Ident} {ns ns' : List Node} {n : Node} {a : α} {b : β}
  {x : Except Violation α}

theorem done : Tells debug env [] [] a (.ok a) := ⟨rfl, nofun, .nil⟩

/-- A violation shows as much of a larger tree. -/
theorem shows_mono {env' : NameEnv} {v : Violation} (h : v.Shows debug env free ns)
    (hfree : ∀ id ∈ free, env.isBound id.name = false → id ∈ free' ∧ env'.isBound id.name = false)
    (hns : ∀ n ∈ ns, n ∈ ns') : v.Shows debug env' free' ns' := by
  obtain ⟨cause, span⟩ := v
  cases cause with
  | unavailable name available =>
      obtain ⟨hmem, hbound, havailable, n, hn, hrefers⟩ := h
      obtain ⟨hmem', hbound'⟩ := hfree _ hmem hbound
      exact ⟨hmem', hbound', havailable, n, hns n hn, hrefers⟩
  | _ => exact fun hall => h fun n hn => hall n (hns n hn)

/-- One check behind another. -/
theorem seq {f : α → Except Violation β} (hx : Tells debug env free ns a x) (hf : Tells debug env free' ns' b (f a)) :
    Tells debug env (free ++ free') (ns ++ ns') b (x >>= f) := by
  cases x with
  | error v =>
      exact shows_mono hx (fun id hid hbound => ⟨List.mem_append_left _ hid, hbound⟩) fun n hn => List.mem_append_left _ hn
  | ok a' =>
      obtain ⟨rfl, hfree, hns⟩ := hx
      show Tells debug env _ _ b (f a')
      cases hresult : f a' with
      | error v =>
          rw [hresult] at hf
          exact shows_mono hf (fun id hid hbound => ⟨List.mem_append_right _ hid, hbound⟩)
            fun n hn => List.mem_append_right _ hn
      | ok b' =>
          rw [hresult] at hf
          obtain ⟨rfl, hfree', hns'⟩ := hf
          exact ⟨rfl, List.forall_mem_append.2 ⟨hfree, hfree'⟩, hns.append hns'⟩

/-- A check whose result is replaced. -/
theorem pure (hx : Tells debug env free ns a x) : Tells debug env free ns b (x >>= fun _ => Pure.pure b) := by
  simpa using hx.seq (f := fun _ => Pure.pure b) done

/-- A check of what stands behind names that are bound. -/
theorem behind {names : List String} (hx : Tells debug (env.declareAll names) free ns a x) :
    Tells debug env (unbound names free) ns a x := by
  cases x with
  | error v =>
      refine shows_mono hx (fun id hid hbound => ?_) fun n hn => hn
      rw [NameEnv.isBound_declareAll, Bool.or_eq_false_iff] at hbound
      exact ⟨mem_unbound.2 ⟨hid, by simpa using hbound.1⟩, hbound.2⟩
  | ok a' =>
      obtain ⟨hresult, hfree, hns⟩ := hx
      refine ⟨hresult, fun id hid => ?_, hns⟩
      obtain ⟨hmem, hnot⟩ := mem_unbound.1 hid
      have hbound := hfree id hmem
      rw [NameEnv.isBound_declareAll] at hbound
      simpa [hnot] using hbound

/-- A check in a scope of its own. -/
theorem inScope (hx : Tells debug env.push free ns a x) : Tells debug env free ns a x := by
  cases x with
  | error v =>
      refine shows_mono hx (fun id hid hbound => ⟨hid, ?_⟩) fun n hn => hn
      rwa [NameEnv.isBound_push] at hbound
  | ok a' =>
      obtain ⟨hresult, hfree, hns⟩ := hx
      refine ⟨hresult, fun id hid => ?_, hns⟩
      rw [← NameEnv.isBound_push]
      exact hfree id hid

/-- The node above an admissible tree. -/
theorem node (hn : n.isForbidden debug = false) (hx : Tells debug env free ns a x) : Tells debug env free (n :: ns) a x := by
  cases x with
  | error v => exact shows_mono hx (fun id hid hbound => ⟨hid, hbound⟩) fun n hn => List.mem_cons_of_mem _ hn
  | ok a' => exact ⟨hx.1, hx.2.1, hx.2.2.cons hn⟩

/-- A node that is refused. -/
theorem refused {cause : Violation.Cause} {span : Span} (hcause : ∀ name available, cause ≠ .unavailable name available)
    (hn : n.isForbidden debug = true) : Tells debug env free (n :: ns) a (.error ⟨cause, span⟩) := by
  have hnot : ¬ Admissible debug (n :: ns) := by
    intro hall
    have hallowed := hall n List.mem_cons_self
    rw [hn] at hallowed
    cases hallowed
  cases cause with
  | unavailable name available => exact absurd rfl (hcause name available)
  | _ => exact hnot

/-- The nodes may come in another order. -/
theorem reorder (hx : Tells debug env free ns a x) (hns : ∀ n, n ∈ ns ↔ n ∈ ns') : Tells debug env free ns' a x := by
  cases x with
  | error v => exact shows_mono hx (fun id hid hbound => ⟨hid, hbound⟩) fun n hn => (hns n).1 hn
  | ok a' => exact ⟨hx.1, hx.2.1, fun n hn => hx.2.2 n ((hns n).2 hn)⟩

end Tells

theorem name_tells (debug : Bool) (env : NameEnv) (id : Ident) {n : Node} (hn : n.RefersTo id)
    (hallowed : n.isForbidden debug = false) : Tells debug env [id] [n] () (name env id.name id.span) := by
  unfold name
  split
  · rename_i hbound
    exact ⟨rfl, List.forall_mem_cons.2 ⟨hbound, nofun⟩, .cons hallowed .nil⟩
  · rename_i hbound
    rw [Bool.not_eq_true] at hbound
    refine ⟨List.mem_cons_self, hbound, fun hmem => ?_, n, List.mem_cons_self, hn⟩
    rw [NameEnv.mem_visible, hbound] at hmem
    cases hmem

variable {debug : Bool}

open Node

mutual

theorem expr_tells (env : NameEnv) (e : Expr) : Tells debug env e.free (ofExpr e) () (expr debug env e) := by
  match e with
  | .literal _ _ => exact Tells.done.node rfl
  | .identifier x span => exact name_tells debug env ⟨x, span⟩ (n := .expr (.identifier x span)) rfl rfl
  | .template _ es _ => exact (exprs_tells env es).node rfl
  | .array is _ => exact (items_tells env is).node rfl
  | .object ps _ => exact (properties_tells env ps).node rfl
  | .member o k _ _ => exact ((expr_tells env o).seq (key_tells env k)).node rfl
  | .call callee args _ _ => exact ((expr_tells env callee).seq (items_tells env args)).node rfl
  | .arrow ps body _ _ =>
      have hbody := (arrowBody_tells (env.push.declareAll (Pattern.boundNamesOf ps)) body).behind
      exact ((parameters_tells env.push ps).seq hbody).inScope.node rfl
  | .function (.mk _ _ _ _) | .this _ | .await _ _ => exact .refused nofun rfl
  | .unary op e _ =>
      cases op with
      | delete => exact .refused nofun rfl
      | _ => exact (expr_tells env e).node rfl
  | .update _ _ target _ =>
      cases target with
      | ident id => exact (name_tells debug env id (n := .pattern (.ident id)) rfl rfl).node rfl
      | _ => exact (pattern_tells env _).node rfl
  | .binary _ l r _ | .logical _ l r _ => exact ((expr_tells env l).seq (expr_tells env r)).node rfl
  | .conditional test yes no _ =>
      exact ((expr_tells env test).seq ((expr_tells env yes).seq (expr_tells env no))).node rfl
  | .assign _ target e _ => exact ((pattern_tells env target).seq (expr_tells env e)).node rfl
  | .sequence es _ => exact (exprs_tells env es).node rfl

theorem exprs_tells (env : NameEnv) (es : List Expr) :
    Tells debug env (freeOfExprs es) (ofExprs es) () (exprs debug env es) := by
  match es with
  | [] => exact .done
  | e :: more => exact (expr_tells env e).seq (exprs_tells env more)

theorem items_tells (env : NameEnv) (is : List Item) :
    Tells debug env (freeOfItems is) (ofItems is) () (items debug env is) := by
  match is with
  | [] => exact .done
  | .expr e :: more | .spread e :: more => exact (expr_tells env e).seq (items_tells env more)
  | .hole :: more => exact items_tells env more

theorem properties_tells (env : NameEnv) (ps : List Property) :
    Tells debug env (freeOfProperties ps) (ofProperties ps) () (properties debug env ps) := by
  match ps with
  | [] => exact .done
  | .init k e _ _ :: more => exact (key_tells env k).seq ((expr_tells env e).seq (properties_tells env more))
  | .spread e :: more => exact (expr_tells env e).seq (properties_tells env more)

theorem key_tells (env : NameEnv) (k : Key) : Tells debug env k.free (ofKey k) () (key debug env k) := by
  match k with
  | .name _ | .literal _ => exact .done
  | .computed e => exact expr_tells env e

theorem arrowBody_tells (env : NameEnv) (body : ArrowBody) :
    Tells debug env body.free (ofArrowBody body) () (arrowBody debug env body) := by
  match body with
  | .expr e => exact expr_tells env e
  | .block b => exact block_tells env b

theorem parameters_tells (env : NameEnv) (ps : List Pattern) : Tells debug env (freeOfParameters ps) (ofPatterns ps)
    (env.declareAll (Pattern.boundNamesOf ps)) (parameters debug env ps) := by
  match ps with
  | [] => exact .done
  | p :: more =>
      rw [Pattern.boundNamesOf, NameEnv.declareAll_append]
      exact (pattern_tells env p).seq (parameters_tells (env.declareAll p.boundNames) more).behind

theorem pattern_tells (env : NameEnv) (p : Pattern) : Tells debug env p.free (ofPattern p) () (pattern debug env p) := by
  match p with
  | .ident _ | .hole => exact Tells.done.node rfl
  | .array ps _ => exact (patterns_tells env ps).node rfl
  | .object ps _ => exact (patternProps_tells env ps).node rfl
  | .assign target default => exact ((pattern_tells env target).seq (expr_tells env default)).node rfl
  | .rest target => exact (pattern_tells env target).node rfl
  | .member e => exact (expr_tells env e).node rfl

theorem patterns_tells (env : NameEnv) (ps : List Pattern) :
    Tells debug env (freeOfPatterns ps) (ofPatterns ps) () (patterns debug env ps) := by
  match ps with
  | [] => exact .done
  | p :: more => exact (pattern_tells env p).seq (patterns_tells env more)

theorem patternProps_tells (env : NameEnv) (ps : List PatternProp) :
    Tells debug env (freeOfPatternProps ps) (ofPatternProps ps) () (patternProps debug env ps) := by
  match ps with
  | [] => exact .done
  | .init k target _ :: more =>
      exact (key_tells env k).seq ((pattern_tells env target).seq (patternProps_tells env more))
  | .rest target :: more => exact (pattern_tells env target).seq (patternProps_tells env more)

theorem stmt_tells (env : NameEnv) (s : Stmt) :
    Tells debug env s.free (ofStmt s) (env.declareAll s.declared) (stmt debug env s) := by
  match s with
  | .expr e _ => exact (expr_tells env e).pure.node rfl
  | .declare (.mk _ ds _) _ => exact (declarators_tells env ds).node rfl
  | .return none _ => exact Tells.done.node rfl
  | .return (some e) _ => exact (expr_tells env e).pure.node rfl
  | .cond test yes none _ =>
      exact ((expr_tells env test).seq ((stmt_tells env yes).seq .done)).node rfl
  | .cond test yes (some no) _ =>
      rw [Stmt.declared, NameEnv.declareAll_append]
      have hno := (stmt_tells (env.declareAll yes.declared) no).behind
      exact ((expr_tells env test).seq ((stmt_tells env yes).seq hno)).node rfl
  | .while test body _ => exact ((expr_tells env test).seq (stmt_tells env body)).node rfl
  | .doWhile body test _ =>
      have htest := (expr_tells (env.declareAll body.declared) test).pure (b := env.declareAll body.declared)
      exact ((stmt_tells env body).seq htest.behind).node rfl
  | .for init test update body _ =>
      refine ((forInit_tells env.push init).seq (Tells.behind ?_)).inScope.node rfl
      exact (optional_tells _ test).seq ((optional_tells _ update).seq (stmt_tells _ body).pure)
  | .block b => exact (block_tells env b).pure.node rfl
  | .break _ | .continue _ | .empty _ => exact Tells.done.node rfl
  | .debugger _ =>
      cases debug with
      | true => exact Tells.done.node rfl
      | false => exact .refused nofun rfl
  | .function (.mk _ _ _ _) => exact .refused nofun rfl

theorem optional_tells (env : NameEnv) (e : Option Expr) :
    Tells debug env (freeOfOption e) (ofOption e) () (optional debug env e) := by
  match e with
  | none => exact .done
  | some e => exact expr_tells env e

theorem forInit_tells (env : NameEnv) (init : ForInit) :
    Tells debug env init.free (ofForInit init) (env.declareAll init.declared) (forInit debug env init) := by
  match init with
  | .absent => exact .done
  | .declare (.mk _ ds _) => exact declarators_tells env ds
  | .expr e => exact (expr_tells env e).pure

theorem declarators_tells (env : NameEnv) (ds : List Declarator) : Tells debug env (freeOfDeclarators ds) (ofDeclarators ds)
    (env.declareAll (declared ds)) (declarators debug env ds) := by
  match ds with
  | [] => exact .done
  | .mk target init _ :: more =>
      rw [declared, List.flatMap_cons, NameEnv.declareAll_append]
      have hmore := (declarators_tells (env.declareAll target.boundNames) more).behind
      refine ((optional_tells env init).seq ((pattern_tells env target).seq hmore)).reorder fun n => ?_
      simp only [ofDeclarators, List.mem_append]
      exact or_left_comm

theorem block_tells (env : NameEnv) (b : Block) : Tells debug env b.free (ofBlock b) () (block debug env b) := by
  match b with
  | .mk ss _ => exact (stmts_tells env.push ss).pure.inScope

theorem stmts_tells (env : NameEnv) (ss : List Stmt) : Tells debug env (freeOfStmts ss) (ofStmts ss)
    (env.declareAll (ss.flatMap Stmt.declared)) (stmts debug env ss) := by
  match ss with
  | [] => exact .done
  | s :: more =>
      rw [List.flatMap_cons, NameEnv.declareAll_append]
      exact (stmt_tells env s).seq (stmts_tells (env.declareAll s.declared) more).behind

end

end Validate

/-! ## Bodies -/

/-- The names that a body may use without declaring them. -/
theorem isBound_fieldNames {capabilities : Capabilities} {args : List String} {debug : Bool} {name : String} :
    (fieldNames capabilities args debug).isBound name = true ↔
      name ∈ capabilities.names ++ args ++ Prelude.names ++ standardNames ++ if debug then debugNames else [] :=
  NameEnv.isBound_ofList

theorem Expr.validate_tells (e : Expr) (capabilities : Capabilities) (args : List String) (debug : Bool) :
    Validate.Tells debug (fieldNames capabilities args debug) e.free e.nodes () (e.validate capabilities args debug) :=
  Validate.expr_tells _ e

/-- A body that passes validation is made of admissible nodes. -/
theorem Expr.nodes_admissible {body : Expr} {capabilities : Capabilities} {args : List String} {debug : Bool}
    (h : body.validate capabilities args debug = .ok ()) : Admissible debug body.nodes := by
  have htells := body.validate_tells capabilities args debug
  rw [h] at htells
  exact htells.2.2

/-! ## The verdict on a body -/

/-- A node that is named as told refers to a name as told. -/
theorem Node.Named.refersTo {I : Ident → Prop} {n : Node} {id : Ident} (h : n.Named I) (hid : n.RefersTo id) : I id := by
  unfold Node.RefersTo at hid
  split at hid
  · rw [hid]
    exact h
  · rw [hid]
    exact h
  · exact hid.elim

/-- Only missing names are reported as such. -/
theorem Violation.exists_of_code {v : Violation} {source : Source} (h : (v.toDiagnostic source).code = .freeVariable) :
    ∃ name available, v.cause = .unavailable name available := by
  obtain ⟨cause, span⟩ := v
  cases cause with
  | unavailable name available => exact ⟨name, available, rfl⟩
  | _ => cases h

theorem Expr.validate_iff (e : Expr) (capabilities : Capabilities) (args : List String) (debug : Bool) :
    e.validate capabilities args debug = .ok () ↔
      (∀ id ∈ e.free, (fieldNames capabilities args debug).isBound id.name = true) ∧ Admissible debug e.nodes := by
  have htells := e.validate_tells capabilities args debug
  cases hvalid : e.validate capabilities args debug with
  | ok _ =>
      rw [hvalid] at htells
      exact iff_of_true rfl htells.2
  | error v =>
      rw [hvalid] at htells
      refine iff_of_false nofun fun hall => ?_
      obtain ⟨cause, span⟩ := v
      cases cause with
      | unavailable name available =>
          obtain ⟨hfree, hbound, -⟩ := htells
          rw [hall.1 _ hfree] at hbound
          cases hbound
      | _ => exact htells hall.2

/-- Validation accepts an expression if and only if its free names are among those that the field may use and it has no
`function`, `this`, `await`, `delete` or, unless it is being debugged, `debugger` anywhere. If it reports a name in an
expression that was read, then that name stands in the source at the reported place, and it is a free name of the
expression that the field may not use. -/
theorem validate_free (e : Expr) (capabilities : Capabilities) (args : List String) (debug : Bool) :
    (e.validate capabilities args debug = .ok () ↔
      (∀ id ∈ e.free, id.name ∈ capabilities.names ++ args ++ Prelude.names ++ standardNames ++
        if debug then debugNames else []) ∧ Admissible debug e.nodes) ∧
    ∀ (source : Source) (offset stop : Nat) (v : Violation), source.exprAt offset = .ok ⟨e, stop⟩ →
      e.validate capabilities args debug = .error v → (v.toDiagnostic source).code = .freeVariable →
        ∃ name available, (v.toDiagnostic source).message = Violation.Cause.message (.unavailable name available) ∧
          source.textAt (v.toDiagnostic source).location.span = name ∧
          ⟨name, (v.toDiagnostic source).location.span⟩ ∈ e.free ∧ name ∉ available ∧
          name ∉ capabilities.names ++ args ++ Prelude.names ++ standardNames ++ if debug then debugNames else [] := by
  refine ⟨?_, fun source offset stop v hread hvalid hcode => ?_⟩
  · simp only [e.validate_iff, isBound_fieldNames]
  · obtain ⟨name, available, hcause⟩ := Violation.exists_of_code hcode
    obtain ⟨cause, span⟩ := v
    obtain rfl : cause = .unavailable name available := hcause
    have htells := e.validate_tells capabilities args debug
    rw [hvalid] at htells
    obtain ⟨hfree, hbound, havailable, n, hn, hrefers⟩ := htells
    refine ⟨name, available, rfl, (Parse.exprAt_named hread n hn).refersTo hrefers, hfree, havailable, fun hmem => ?_⟩
    rw [isBound_fieldNames.2 hmem] at hbound
    cases hbound

/-- A function of two parameters, of which the second refers to the first. Its body refers to a third name. -/
def thirdName : Source := Source.ofString "(a, b = a) => a + b + c"

/-- The third name is reported where it stands, and accepted if it is an argument of the field. -/
theorem validate_free_thirdName :
    ∃ e stop v, thirdName.exprAt 0 = .ok ⟨e, stop⟩ ∧ e.validate ⟨[]⟩ ["c"] false = .ok () ∧
      e.validate ⟨[]⟩ [] false = .error v ∧ (v.toDiagnostic thirdName).code = .freeVariable ∧
        ∃ name, thirdName.textAt (v.toDiagnostic thirdName).location.span = name ∧
          ⟨name, (v.toDiagnostic thirdName).location.span⟩ ∈ e.free := by
  have hverdict : (thirdName.exprAt 0).toOption.any (fun parsed =>
      (parsed.expr.validate ⟨[]⟩ ["c"] false).toOption.isSome && match parsed.expr.validate ⟨[]⟩ [] false with
        | .ok _ => false
        | .error v => decide ((v.toDiagnostic thirdName).code = .freeVariable)) = true := by decide +kernel
  cases hread : thirdName.exprAt 0 with
  | error d =>
      rw [hread] at hverdict
      cases hverdict
  | ok parsed =>
      obtain ⟨e, stop⟩ := parsed
      rw [hread] at hverdict
      obtain ⟨haccepts, hrefuses⟩ := Bool.and_eq_true_iff.1 (show _ = true from hverdict)
      cases hvalid : e.validate ⟨[]⟩ [] false with
      | ok _ =>
          rw [hvalid] at hrefuses
          cases hrefuses
      | error v =>
          rw [hvalid] at hrefuses
          have hcode : (v.toDiagnostic thirdName).code = .freeVariable := of_decide_eq_true hrefuses
          obtain ⟨name, -, -, hname, hfree, -, -⟩ := (validate_free e ⟨[]⟩ [] false).2 thirdName 0 stop v hread hvalid hcode
          refine ⟨e, stop, v, rfl, ?_, hvalid, hcode, name, hname, hfree⟩
          cases haccept : e.validate ⟨[]⟩ ["c"] false with
          | ok _ => rfl
          | error v' =>
              rw [haccept] at haccepts
              cases haccepts

end FieldScript
