import FieldScript.Proofs.Eval.Calls

/-!
# Calls that have moved

Where a call is the object of a member access, the settled body has a temporary in its place, declared in
front of the statement. Where such declarations may not leave a position, they stay in a function of
their own that is called at once and awaited.

* `Part.hoist`: a part becomes a declaration in front, and only the name of the temporary is left.
* `Part.enclose`: the declarations of a part run inside an asynchronous function, with what is left.
-/

namespace FieldScript

open Settle (temporaryName temporaryStmt awaited returning thunk)

/-- Nothing is needed from before. -/
abbrev Kind.unit : Kind Unit := Kind.same Unit

/-! ## Declared temporaries -/

section

variable {n n' k : Nat} {σ : Scope} {f : FrameRef} {S : Store} {b : Binding} {name : String}

theorem Keeps.declare (hn : n ≤ k) (hn' : k < n') :
    Keeps n n' (f :: σ) S (S.modifyFrame f (Entries.set (temporaryName k) b)) := by
  refine ⟨by simp [Store.modifyFrame], fun f' hf' name hname => ?_⟩
  by_cases h : f' = f
  · subst h
    rw [Store.frame_modifyFrame_self _ hf', Entries.lookup_set, if_neg (hname rfl k hn hn')]
  · rw [Store.frame_modifyFrame_ne _ h]

theorem Scope.find?_declared (h : f.index < S.frames.size) :
    Scope.find? (S.modifyFrame f (Entries.set name b)) name (f :: σ) = some b := by
  unfold Scope.find?
  rw [Store.frame_modifyFrame_self _ h, Entries.lookup_set, if_pos rfl]

end

/-- A declaration of a temporary. -/
theorem Eval.stmt_temporary (c : Context) (k : Nat) (e : Expr) (σ : Scope) :
    Eval.stmt c (temporaryStmt k e) σ = orUndefined (Eval.link c (awaited e) σ) >>= fun v =>
      Comp.ofAct (σ.declare (temporaryName k) v true) >>= fun _ => Pure.pure .normal := by
  unfold temporaryStmt Settle.declareStmt
  rw [Eval.stmt, Eval.declare, Eval.declarations, Eval.declarations]
  simp only [bind_assoc, Eval.bindPattern]
  rfl

section

variable {scene : Scene} {n k : Nat} {deeds : Deeds} {T M T' A S : Store} {j : Journal} {β : Pairing} {σ : Scope}
  {X : Cell → Prop} {B : Temporaries} {D : List Stmt} {e : Expr} {v w : Value}

/-- A value that both runs have gets a temporary in the second. -/
theorem Scene.At.declare (h : scene.At A j β S σ) (hlike : v.Like β w) :
    ∃ S', Comp.ofAct (σ.declare (temporaryName k) w true) S = .done (.ok ()) S' ∧ scene.At A j β S' σ ∧
      Keeps k (k + 1) σ S S' ∧ Temporaries.Bound [(k, v)] β S' σ := by
  obtain ⟨f, σ', rfl⟩ := List.exists_cons_of_ne_nil h.inside
  have hf : f.index < S.frames.size := h.bounds f List.mem_cons_self
  have hkeeps : Keeps k (k + 1) (f :: σ') S (S.modifyFrame f (Entries.set (temporaryName k) ⟨w, true⟩)) :=
    Keeps.declare (Nat.le_refl k) (Nat.lt_succ_self k)
  refine ⟨_, rfl, h.keep (h.heap.extend (Store.Extends.refl A) ⟨id, id⟩) (fun _ _ h => h) h.hears hkeeps,
    hkeeps, ?_⟩
  intro b hb
  obtain rfl := List.mem_singleton.1 hb
  exact ⟨⟨w, true⟩, Scope.find?_declared hf, hlike⟩

/-- Reading a temporary. -/
theorem Scene.read_temporary (scene : Scene) (h : B.Bound β S σ) (hv : (k, v) ∈ B) (span : Span) :
    ∃ w, v.Like β w ∧ ∀ m, Eval.link (scene.settled m) (.identifier (temporaryName k) span) σ S =
      .done (.ok (some w)) S := by
  obtain ⟨b, hb, hlike⟩ := h (k, v) hv
  refine ⟨b.value, hlike, fun m => ?_⟩
  rw [Eval.link]
  show (Comp.ofAct (scene.setting.lookup (temporaryName k) σ) S).bind _ = _
  unfold Comp.ofAct
  rw [Setting.lookup_bound hb]
  rfl

/-- Running the declaration of a temporary. -/
theorem Reaches.temporary {S₁ S₂ : Store}
    (hvalue : Reaches scene.run (fun m => Eval.link (scene.settled m) (awaited e) σ S) (.ok (some w)) S₁)
    (hdeclare : Comp.ofAct (σ.declare (temporaryName k) w true) S₁ = .done (.ok ()) S₂) :
    Reaches scene.run (fun m => Eval.stmts (scene.settled m) [temporaryStmt k e] σ S) (.ok .normal) S₂ := by
  have hrest : (Comp.ofAct (σ.declare (temporaryName k) w true) >>= fun _ => Pure.pure .normal :
      Comp Completion) S₁ = .done (.ok .normal) S₂ := by
    show (Comp.ofAct (σ.declare (temporaryName k) w true) S₁).bind _ = _
    rw [hdeclare]
    rfl
  have hstmt : Reaches scene.run (fun m => Eval.stmt (scene.settled m) (temporaryStmt k e) σ S)
      (.ok .normal) S₂ := by
    simp only [Eval.stmt_temporary, orUndefined, bind_assoc, pure_bind]
    refine hvalue.bind (f := fun _ (v : Option Value) =>
      Comp.ofAct (σ.declare (temporaryName k) (v.getD .undefined) true) >>=
        fun _ => Pure.pure Completion.normal) ?_
    simp only [Option.getD_some, hrest]
    exact Reaches.done
  simp only [Eval.stmts_cons]
  exact hstmt.bind (f := fun m x => x.andThen (Eval.stmts (scene.settled m) [] σ)) Reaches.done

/-- A part that changes no cells becomes a declaration in front. -/
theorem Scene.Part.hoist
    (h : scene.Part n k deeds T M T' X B D Kind.unit ()
      (fun m _ σ => Eval.link (scene.settled m) (awaited e) σ) Kind.value.option (some v))
    (hwrites : deeds.writes = false) (span : Span) :
    scene.Part n (k + 1) Deeds.none T T' T' (T.Between T') [(k, v)] (D ++ [temporaryStmt k e]) Kind.unit ()
      (fun m _ σ => Eval.link (scene.settled m) (.identifier (temporaryName k) span) σ)
      Kind.value.option (some v) := by
  have hle := h.le
  have hstill : M.Extends T' := h.still hwrites
  have hpart : scene.Part n k ⟨false, true⟩ T M T' X B D Kind.unit () _ Kind.value.option (some v) :=
    h.weaken (fun hw => by simp [hwrites] at hw) fun _ => rfl
  refine ⟨by omega, h.start.trans hstill, fun _ hx => hx, fun _ => Store.Extends.refl T', fun _ _ hs => hs,
    fun hD => by simp at hD, fun _ hx => hx, fun b hb => ?_, ?_, ?_⟩
  · obtain rfl := List.mem_singleton.1 hb
    exact ⟨hle, Nat.lt_succ_self k⟩
  · intro A β S σ hext hat hnone
    obtain ⟨β₁, S₁, hrun₁, hat₁, hβ₁, hnew₁, hbound₁, hkeeps₁⟩ := hpart.front A β S σ (hstill.trans hext) hat
      fun x z hx hbetween => hnone x z hx (hbetween.left hstill.within)
    have honly : ∀ x z, β₁ x z → T.Between T' x → X x := by
      intro x z hx hbetween
      rcases hnew₁ x z hx with hx | hx
      · exact absurd hbetween (hnone x z hx)
      · exact hx
    obtain ⟨β₂, S₂, b, hrun₂, hat₂, hβ₂, hnew₂, hkeeps₂, hlike⟩ :=
      hpart.rest A A M.journal T'.journal β₁ S₁ σ () (.ahead hext) .exact hat₁ hbound₁ honly rfl
    cases hlike with
    | some hlike =>
        rename_i w
        obtain ⟨S₃, hdeclare, hat₃, hkeeps₃, hbound₃⟩ := hat₂.declare (k := k) hlike
        refine ⟨β₂, S₃, hrun₁.stmts_append ?_, hat₃, hβ₁.trans hβ₂, ?_, hbound₃, ?_⟩
        · exact Reaches.temporary hrun₂ hdeclare
        · intro x z hx
          rcases hnew₂ x z hx with hx | hx
          · rcases hnew₁ x z hx with hx | hx
            · exact .inl hx
            · exact .inr ((h.cells x hx).left hstill.within)
          · exact .inr hx
        · exact ((hkeeps₁.mono (Nat.le_refl n) (Nat.le_succ k)).trans hkeeps₂.weaken).trans
            (hkeeps₃.mono hle (Nat.le_refl _))
  · rintro A A' j j' β S σ g ⟨hreach⟩ ⟨⟩ hat hbound honly -
    obtain ⟨w, hlike, hread⟩ := scene.read_temporary hbound List.mem_cons_self span
    refine ⟨β, S, some w, ?_, hat, fun _ _ h => h, fun x z h => .inl h, Keeps.refl 0 0 σ S, .some hlike⟩
    simp only [hread]
    exact Reaches.done

end

/-! ## Functions that are called at once -/

/-- A store in which an arrow function has been made and entered. -/
def Store.entered (s : Store) (closure : Closure) : Store :=
  (s.addClosure closure).2.addFrame.2.addFrame.2

/-- The scope in the body of an arrow function that was entered. -/
def Scope.entered (σ : Scope) (s : Store) : Scope := ⟨s.frames.size + 1⟩ :: ⟨s.frames.size⟩ :: σ

section

variable {scene : Scene} {A S S' : Store} {j : Journal} {β : Pairing} {σ : Scope} {closure : Closure}

theorem Store.frames_entered : (S.entered closure).frames = (S.frames.push []).push [] := rfl

theorem Store.frame_entered {f : FrameRef} (h : f.index < S.frames.size) :
    (S.entered closure).frame f = S.frame f := by
  unfold frame
  rw [frames_entered, Array.getElem?_push_lt (by simp; omega), Array.getElem_push_lt h,
    Array.getElem?_eq_getElem h]

theorem Store.frame_entered_new {k : Nat} (h : S.frames.size ≤ k) : (S.entered closure).frame ⟨k⟩ = [] := by
  unfold frame
  rw [frames_entered, Array.getElem?_push, Array.getElem?_push]
  simp only [Array.size_push]
  rw [Array.getElem?_eq_none (by omega)]
  split
  · rfl
  · split <;> rfl

theorem Keeps.entered {n n' : Nat} (hkeeps : Keeps n n' (σ.entered S) (S.entered closure) S') :
    Keeps 0 0 σ S S' := by
  have hsize : (S.entered closure).frames.size = S.frames.size + 2 := by simp [Store.frames_entered]
  refine ⟨by have := hkeeps.size; omega, fun f hf name _ => ?_⟩
  rw [hkeeps.lookup f (by omega) name, Store.frame_entered hf]
  intro hhead
  have : (⟨S.frames.size + 1⟩ : FrameRef) = f := by simpa [Scope.entered] using hhead
  subst this
  exact absurd hf (by simp)

/-- Entering an arrow function changes nothing that can be seen. -/
theorem Scene.At.entered (h : scene.At A j β S σ) :
    scene.At A j β (S.entered closure) (σ.entered S) where
  heap := h.heap.extend (Store.Extends.refl A) ⟨id, id⟩
  data := h.data
  hears := h.hears
  inside := by simp [Scope.entered]
  bounds f hf := by
    have hsize : (S.entered closure).frames.size = S.frames.size + 2 := by simp [Store.frames_entered]
    rcases List.mem_cons.1 hf with rfl | hf
    · simp [hsize]
    rcases List.mem_cons.1 hf with rfl | hf
    · simp [hsize]
    · have := h.bounds f hf
      omega
  names name hname := by
    unfold Scope.entered Scope.find? Scope.find?
    rw [Store.frame_entered_new (by omega), Store.frame_entered_new (Nat.le_refl _)]
    have hkeeps : Keeps 0 0 σ S (S.entered closure) := (Keeps.refl 0 0 _ _).entered
    exact (hkeeps.find? h.bounds (outside_self 0 name)).trans (h.names name hname)

end

/-- The value of a function whose body has ended. -/
def Completion.value (completion : Completion) : Comp Value :=
  match completion with
  | .return v => return v
  | _ => return .undefined

/-- The function that declarations and an expression are put into. -/
def enclosed (D : List Stmt) (e : Expr) (σ : Scope) : Closure :=
  ⟨[], .block (.mk (D ++ [returning e]) e.span), true, σ⟩

section

variable {scene : Scene} {S S' : Store} {σ : Scope} {D : List Stmt} {e : Expr} {w : Value}

/-- A function that is there is found. -/
theorem Act.closure_ok {s : Store} {ref : ClosureRef} {closure : Closure} (h : s.closure? ref = some closure) :
    (Act.closure ref).run s = (.ok closure, s) := by
  have hget : (MonadState.get : Act Store).run s = (.ok s, s) := rfl
  unfold Act.closure
  rw [Act.run_bind_ok hget, h]
  rfl

theorem Act.closure_addClosure (s : Store) (closure : Closure) :
    (Act.closure (s.addClosure closure).1).run (s.addClosure closure).2 =
      (.ok closure, (s.addClosure closure).2) :=
  closure_ok (by simp [Store.addClosure, Store.closure?])

/-- An action that has succeeded, followed by a computation. -/
theorem Comp.ofAct_bind {α γ : Type} {act : Act α} {a : α} {s t : Store} (h : act.run s = (.ok a, t))
    (f : α → Comp γ) : (Comp.ofAct act >>= f) s = f a t := by
  show (Comp.ofAct act s).bind f = _
  unfold Comp.ofAct
  rw [h]
  rfl

theorem Scene.call_async {m : Nat} {ref : ClosureRef} {closure : Closure}
    (h : (Act.closure ref).run S = (.ok closure, S)) (hasync : closure.isAsync = true) (args : List Value) :
    (scene.settled m).call (.closure ref) args S =
      .spawn (.job (.closure ref args)) S fun p s => .done (.ok (.promise p)) s := by
  show (Comp.ofAct (Act.closure ref) >>= fun closure => if closure.isAsync then _ else _) S = _
  rw [Comp.ofAct_bind h, if_pos hasync]
  rfl

/-- Calling the function and waiting for it. -/
theorem Eval.link_thunk (m : Nat) :
    orUndefined (Eval.link (scene.settled m) (thunk D e) σ) S =
      .spawn (.job (.closure (S.addClosure (enclosed D e σ)).1 []))
        (S.addClosure (enclosed D e σ)).2 fun p s => Comp.settle (.promise p) s := by
  unfold thunk awaited orUndefined
  simp only [Eval.link, Eval.values, orUndefined, bind_assoc, pure_bind, Bool.false_and, Option.getD_some,
    bind_pure, Bool.false_eq_true, if_false]
  show ((scene.settled m).call (.closure (S.addClosure (enclosed D e σ)).1) []
    (S.addClosure (enclosed D e σ)).2).bind _ = _
  rw [Scene.call_async (Act.closure_addClosure S _) rfl]
  rfl

/-- Running the function. -/
theorem Scene.run_enclosed (m : Nat) :
    scene.run m (.closure (S.addClosure (enclosed D e σ)).1 []) (S.addClosure (enclosed D e σ)).2 =
      (Eval.stmts (scene.settled m) (D ++ [returning e]) (σ.entered S) (S.entered (enclosed D e σ))).bind
        fun x => x.value >>= Comp.settle := by
  show (Comp.ofAct (Act.closure _) >>= fun closure => closure.run (scene.settled m) [] >>= Comp.settle) _ = _
  rw [Comp.ofAct_bind (Act.closure_addClosure S _)]
  unfold Closure.run
  simp only [bind_assoc]
  have hchild : (Scope.child σ).run (S.addClosure (enclosed D e σ)).2 =
      (.ok (⟨S.frames.size⟩ :: σ), (S.addClosure (enclosed D e σ)).2.addFrame.2) := rfl
  show (Comp.ofAct (Scope.child σ) >>= fun inner =>
    Eval.bindElements (scene.settled m) [] [] (.declare false) inner >>= fun _ =>
      (Eval.block (scene.settled m) (.mk (D ++ [returning e]) e.span) inner >>= Completion.value) >>=
        Comp.settle) (S.addClosure (enclosed D e σ)).2 = _
  have hinner : (Scope.child (⟨S.frames.size⟩ :: σ)).run (S.addClosure (enclosed D e σ)).2.addFrame.2 =
      (.ok (σ.entered S), S.entered (enclosed D e σ)) := by
    show (Except.ok (⟨(S.frames.push []).size⟩ :: ⟨S.frames.size⟩ :: σ), _) = _
    rw [Array.size_push]
    rfl
  rw [Comp.ofAct_bind hchild, Eval.bindElements, pure_bind, Eval.block]
  simp only [bind_assoc]
  exact Comp.ofAct_bind hinner _

/-- A job that is waited for. -/
theorem Reaches.job {run : Nat → Job → Comp Value} {x : Nat → Suspension Value} {job : Job} {S₁ : Store}
    (hx : ∀ m, x m = .spawn (.job job) S₁ fun p s => Comp.settle (.promise p) s)
    (hjob : Reaches run (fun m => run m job S₁) (.ok w) S') : Reaches run x (.ok w) S' := by
  obtain ⟨k, hjob⟩ := hjob
  refine ⟨k + 1 + 0, fun m => ?_⟩
  rw [hx m]
  have hlands : Lands (run m) k (run m job S₁) (Raised.halt (.ok w)) S' := hjob m
  exact Lands.job (fun p s => rfl) hlands rfl (Lands.done _ _)

theorem Eval.stmts_return (c : Context) (e : Expr) (span : Span) (σ : Scope) :
    Eval.stmts c [.return (some e) span] σ =
      orUndefined (Eval.link c e σ) >>= fun v => Pure.pure (.return v) := by
  rw [Eval.stmts_cons, Eval.stmt]
  simp only [bind_assoc, pure_bind]
  rfl

/-- Declarations and an expression that run in a function of their own. -/
theorem Reaches.thunk {β : Pairing} {v : Value} {S₁ : Store}
    (hdecls : Reaches scene.run (fun m => Eval.stmts (scene.settled m) D (σ.entered S)
      (S.entered (enclosed D e σ))) (.ok .normal) S₁)
    (hvalue : Reaches scene.run (fun m => orUndefined (Eval.link (scene.settled m) e (σ.entered S)) S₁)
      (.ok w) S') (hlike : v.Like β w) :
    Reaches scene.run (fun m => orUndefined (Eval.link (scene.settled m) (thunk D e) σ) S) (.ok w) S' := by
  refine Reaches.job (fun m => Eval.link_thunk m) ?_
  simp only [Scene.run_enclosed]
  have hreturn : Reaches scene.run (fun m => Eval.stmts (scene.settled m) [returning e] (σ.entered S) S₁)
      (.ok (.return w)) S' := by
    simp only [returning, Eval.stmts_return]
    refine hvalue.bind (f := fun _ v => (Pure.pure (Completion.return v) : Comp Completion)) ?_
    exact Reaches.done
  refine (hdecls.stmts_append hreturn).bind (f := fun _ x => x.value >>= Comp.settle) ?_
  show Reaches scene.run (fun _ => Comp.settle w S') _ _
  rw [Scene.settle_like hlike]
  exact Reaches.done

end

theorem Reach.advance {T M T' A A' : Store} {writes : Bool} (h : Reach T T' writes A A')
    (hstart : T.Extends M) (hstill : writes = false → M.Extends T') :
    ∃ A₁, M.Extends A₁ ∧ A.Extends A₁ ∧ Reach M T' writes A₁ A' := by
  cases h with
  | ahead hext => exact ⟨A, (hstill rfl).trans hext, Store.Extends.refl A, .ahead hext⟩
  | exact => exact ⟨M, Store.Extends.refl M, hstart, .exact⟩

/-- The declarations of a part run inside a function, if the calls that they make count. -/
theorem Scene.Part.enclose {scene : Scene} {n n' : Nat} {deeds : Deeds} {T M T' : Store} {X : Cell → Prop}
    {B : Temporaries} {D : List Stmt} {e : Expr} {v : Value}
    (h : scene.Part n n' deeds T M T' X B D Kind.unit ()
      (fun m _ σ => orUndefined (Eval.link (scene.settled m) e σ)) Kind.value v)
    {calls : Bool} (hcalls : calls = false → ∀ j s, scene.hears j s) :
    scene.Part n n' ⟨deeds.writes, calls⟩ T T T' (fun _ => False) [] [] Kind.unit ()
      (fun m _ σ => orUndefined (Eval.link (scene.settled m) (thunk D e) σ)) Kind.value v := by
  have hgoes : T.Within T' := h.start.within.trans h.goes
  refine ⟨h.le, Store.Extends.refl T, hgoes, fun hw => h.start.trans (h.still hw),
    fun hc s _ => hcalls hc _ s, fun _ => ⟨rfl, rfl, rfl⟩, fun _ hx => hx.elim, (fun b hb => nomatch hb),
    front_nil, ?_⟩
  intro A A' j j' β S σ g hreach hhear hat _ honly _
  -- the journals are those of the first run, or they do not matter
  have hhears : scene.hears T.journal S.journal := by
    cases hhear with
    | any => exact hcalls rfl _ _
    | exact => exact hat.hears
  have hpart : scene.Part n n' ⟨deeds.writes, true⟩ T M T' X B D Kind.unit () _ Kind.value v :=
    h.weaken (fun hw => hw) fun _ => rfl
  obtain ⟨A₁, hM, hA, hreach₁⟩ := hreach.advance h.start h.still
  have hat₁ : scene.At A₁ T.journal β (S.entered (enclosed D e σ)) (σ.entered S) :=
    { (hat.extend hA).entered with hears := hhears }
  obtain ⟨β₁, S₁, hrun₁, hat₂, hβ₁, hnew₁, hbound₁, hkeeps₁⟩ := hpart.front A₁ β _ _ hM hat₁
    fun x z hx hbetween => honly x z hx (hbetween.left h.goes)
  have honly₁ : ∀ x z, β₁ x z → T.Between T' x → X x := by
    intro x z hx hbetween
    rcases hnew₁ x z hx with hx | hx
    · exact (honly x z hx hbetween).elim
    · exact hx
  obtain ⟨β₂, S₂, w, hrun₂, hat₃, hβ₂, hnew₂, hkeeps₂, hlike⟩ :=
    hpart.rest A₁ A' M.journal T'.journal β₁ S₁ _ () hreach₁ .exact hat₂ hbound₁ honly₁ rfl
  have hkeeps : Keeps 0 0 σ S S₂ := (hkeeps₁.trans hkeeps₂.weaken).entered
  have hhears' : scene.hears j' S₂.journal := by
    cases hhear with
    | any => exact hcalls rfl _ _
    | exact => exact hat₃.hears
  refine ⟨β₂, S₂, w, Reaches.thunk hrun₁ hrun₂ hlike, hat.keep hat₃.heap (hβ₁.trans hβ₂) hhears' hkeeps,
    hβ₁.trans hβ₂, ?_, hkeeps, hlike⟩
  intro x z hx
  rcases hnew₂ x z hx with hx | hx
  · rcases hnew₁ x z hx with hx | hx
    · exact .inl hx
    · exact .inr ((h.cells x hx).left h.goes)
  · exact .inr hx

end FieldScript
