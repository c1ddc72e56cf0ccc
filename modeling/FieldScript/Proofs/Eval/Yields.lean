import FieldScript.Proofs.Eval.MappedRuns

/-!
# Computations that come to an end by themselves

Much of a body waits for nothing and changes nothing: it makes new cells and comes to a value. `Comp.Yields` says this of
a computation together with what is known of the value, and `Expr.Yields` of an expression. There is one rule for every
way of putting such computations together.

* `Store.Continues`: what was in the store is still there.
* `Yields.bind`: one computation after another.
* `callFunction_yields`: a function is called, and its body comes to a value in a frame of its own.
* `keep_yields`, `mapM_yields`: a function is called for one element after another.
-/

namespace FieldScript

variable {α β : Type} {c : Context} {σ : Scope} {s t u : Store} {span : Span}

/-! ## What stays in the store -/

/-- A store in which every cell of another one is as it was. -/
structure Store.Continues (s t : Store) : Prop where
  extended : s.Extends t
  closures : ∀ {i : Nat} {closure : Closure}, s.closures[i]? = some closure → t.closures[i]? = some closure
  frames : ∀ {i : Nat} {entries : List (String × Binding)}, s.frames[i]? = some entries → t.frames[i]? = some entries
  journal : t.journal = s.journal

namespace Store.Continues

theorem refl (s : Store) : s.Continues s := ⟨Extends.refl s, id, id, rfl⟩

theorem trans (h : s.Continues t) (h' : t.Continues u) : s.Continues u :=
  ⟨h.extended.trans h'.extended, h'.closures ∘ h.closures, h'.frames ∘ h.frames, h'.journal.trans h.journal⟩

theorem addArray (s : Store) (items : Array Value) : s.Continues (s.addArray items).2 :=
  ⟨extends_addArray _, id, id, rfl⟩

theorem addObject (s : Store) (entries : List (String × Value)) : s.Continues (s.addObject entries).2 :=
  ⟨extends_addObject _, id, id, rfl⟩

theorem getElem?_push {γ : Type} {xs : Array γ} {x y : γ} {i : Nat} (h : xs[i]? = some y) : (xs.push x)[i]? = some y := by
  rw [Array.getElem?_push_lt (Array.getElem?_eq_some_iff.1 h).1]
  grind

theorem addClosure (s : Store) (closure : Closure) : s.Continues (s.addClosure closure).2 :=
  ⟨⟨id, id⟩, getElem?_push, id, rfl⟩

theorem getElem?_addClosure (s : Store) (closure : Closure) :
    (s.addClosure closure).2.closures[(s.addClosure closure).1.index]? = some closure := by
  simp [Store.addClosure]

/-- The variables in sight. -/
theorem find? (h : s.Continues t) (hσ : ∀ f ∈ σ, f.index < s.frames.size) (name : String) :
    Scope.find? t name σ = Scope.find? s name σ := by
  induction σ with
  | nil => rfl
  | cons f σ ih =>
      have hlt := hσ f List.mem_cons_self
      have hframe : t.frame f = s.frame f := by
        unfold Store.frame
        rw [h.frames (Array.getElem?_eq_getElem hlt), Array.getElem?_eq_getElem hlt]
      unfold Scope.find?
      rw [hframe, ih fun g hg => hσ g (List.mem_cons_of_mem f hg)]

theorem frames_size_le (h : s.Continues t) : s.frames.size ≤ t.frames.size := by
  by_contra hlt
  have hlast : t.frames.size < s.frames.size := by omega
  have hin := h.frames (Array.getElem?_eq_getElem hlast)
  exact absurd (Array.getElem?_eq_some_iff.1 hin).1 (Nat.lt_irrefl _)

end Store.Continues

/-! ## Computations -/

/-- A computation that ends at once with a value of a certain kind, and changes no cell. -/
def Comp.Yields (x : Comp α) (s : Store) (P : α → Store → Prop) : Prop :=
  ∃ a t, x s = .done (.ok a) t ∧ s.Continues t ∧ P a t

namespace Comp.Yields

variable {P : α → Store → Prop} {Q : β → Store → Prop}

theorem pure {a : α} (h : P a s) : (Pure.pure a : Comp α).Yields s P := ⟨a, s, rfl, .refl s, h⟩

theorem ofAct {x : Act α} {a : α} (hrun : x.run s = (.ok a, t)) (hst : s.Continues t) (h : P a t) :
    (Comp.ofAct x).Yields s P := by
  refine ⟨a, t, ?_, hst, h⟩
  unfold Comp.ofAct
  rw [hrun]

/-- One computation after another. -/
theorem bind {x : Comp α} {f : α → Comp β}
    (hx : x.Yields s fun a t => s.Continues t → (f a).Yields t Q) : (x >>= f).Yields s Q := by
  obtain ⟨a, t, hrun, hst, h⟩ := hx
  obtain ⟨b, u, hrun', htu, h'⟩ := h hst
  refine ⟨b, u, ?_, hst.trans htu, h'⟩
  show (x s).bind f = _
  rw [hrun]
  exact hrun'

theorem imp {x : Comp α} {P' : α → Store → Prop} (hx : x.Yields s P)
    (h : ∀ a t, s.Continues t → P a t → P' a t) : x.Yields s P' := by
  obtain ⟨a, t, hrun, hst, ha⟩ := hx
  exact ⟨a, t, hrun, hst, h a t hst ha⟩

end Comp.Yields

/-! ## Expressions -/

/-- An expression that ends at once with a value of a certain kind, and changes no cell. -/
def Expr.Yields (c : Context) (σ : Scope) (e : Expr) (s : Store) (P : Value → Store → Prop) : Prop :=
  (Eval.link c e σ).Yields s fun v? t => ∃ v, v? = some v ∧ P v t

namespace Expr.Yields

variable {e e₁ e₂ e₃ : Expr} {P : Value → Store → Prop}

theorem imp {P' : Value → Store → Prop} (h : e.Yields c σ s P) (hP : ∀ v t, s.Continues t → P v t → P' v t) :
    e.Yields c σ s P' :=
  Comp.Yields.imp h fun _ t hst ⟨v, hv, hp⟩ => ⟨v, hv, hP v t hst hp⟩

theorem eval (h : e.Yields c σ s P) : (orUndefined (Eval.link c e σ)).Yields s P := by
  refine Comp.Yields.bind (Comp.Yields.imp h ?_)
  rintro _ t - ⟨v, rfl, hv⟩ -
  exact .pure hv

theorem literal {lit : Literal} (h : P lit.value.toValue s) : (Expr.literal lit span).Yields c σ s P := by
  unfold Expr.Yields
  rw [Eval.link]
  exact .pure ⟨_, rfl, h⟩

theorem identifier {name : String} {v : Value} (hlookup : (c.lookup name σ).run s = (.ok v, t)) (hst : s.Continues t)
    (h : P v t) : (Expr.identifier name span).Yields c σ s P :=
  ⟨some v, t, Eval.link_name hlookup span, hst, v, rfl, h⟩

theorem arrow {ps : List Pattern} {body : ArrowBody} {isAsync : Bool}
    (h : P (.function (.closure (s.addClosure ⟨ps, body, isAsync, σ⟩).1)) (s.addClosure ⟨ps, body, isAsync, σ⟩).2) :
    (Expr.arrow ps body isAsync span).Yields c σ s P := by
  unfold Expr.Yields
  rw [Eval.link]
  exact ⟨_, _, rfl, .addClosure s _, _, rfl, h⟩

theorem member {id : Ident}
    (h : e.Yields c σ s fun v t => ∃ w, (v.get id.name).run t = (.ok w, t) ∧ P w t) :
    (Expr.member e (.name id) false span).Yields c σ s P := by
  obtain ⟨_, t, hrun, hst, v, rfl, w, hget, hw⟩ := h
  exact ⟨some w, t, Eval.link_property hrun hget span, hst, w, rfl, hw⟩

theorem index {optional : Bool}
    (h : e₁.Yields c σ s fun v t => v.isNullish = false ∧ e₂.Yields c σ t fun k u =>
      ∃ name w, k.toKey.run u = (.ok name, u) ∧ (v.get name).run u = (.ok w, u) ∧ P w u) :
    (Expr.member e₁ (.computed e₂) optional span).Yields c σ s P := by
  unfold Expr.Yields
  rw [Eval.link]
  refine Comp.Yields.bind (Comp.Yields.imp h ?_)
  rintro _ t - ⟨v, rfl, hv, hk⟩ -
  dsimp only
  rw [hv, Bool.and_false, if_neg Bool.false_ne_true, Eval.keyName, bind_assoc]
  refine Comp.Yields.bind (hk.eval.imp ?_)
  rintro k u - ⟨name, w, hname, hget, hw⟩ -
  refine Comp.Yields.bind (.ofAct hname (.refl u) fun _ => ?_)
  exact Comp.Yields.bind (.ofAct hget (.refl u) fun _ => .pure ⟨w, rfl, hw⟩)

theorem call {args : List Item}
    (h : e.Yields c σ s fun f t => ∃ g, f = .function g ∧ (Eval.values c args σ).Yields t fun vs u =>
      (c.call g vs).Yields u P) :
    (Expr.call e args false span).Yields c σ s P := by
  unfold Expr.Yields
  rw [Eval.link]
  refine Comp.Yields.bind (Comp.Yields.imp h ?_)
  rintro _ t - ⟨_, rfl, g, rfl, hargs⟩ -
  refine Comp.Yields.bind (hargs.imp fun vs u _ hcall _ => ?_)
  exact Comp.Yields.bind (hcall.imp fun v w _ hv _ => .pure ⟨v, rfl, hv⟩)

theorem binary {op : BinaryOp}
    (h : e₁.Yields c σ s fun a t => e₂.Yields c σ t fun b u => ∃ w, (op.apply a b).run u = (.ok w, u) ∧ P w u) :
    (Expr.binary op e₁ e₂ span).Yields c σ s P := by
  unfold Expr.Yields
  rw [Eval.link]
  refine Comp.Yields.bind (h.eval.imp fun a t _ hb _ => Comp.Yields.bind (hb.eval.imp ?_))
  rintro b u - ⟨w, happly, hw⟩ -
  exact Comp.Yields.bind (.ofAct happly (.refl u) fun _ => .pure ⟨w, rfl, hw⟩)

theorem logical {op : LogicalOp}
    (h : e₁.Yields c σ s fun a t => if op.isDecided a then P a t else e₂.Yields c σ t P) :
    (Expr.logical op e₁ e₂ span).Yields c σ s P := by
  unfold Expr.Yields
  rw [Eval.link]
  refine Comp.Yields.bind (h.eval.imp fun a t _ ha _ => ?_)
  split
  · next hdecided => exact .pure ⟨a, rfl, by rwa [if_pos hdecided] at ha⟩
  · next hopen =>
    rw [if_neg hopen] at ha
    exact Comp.Yields.bind (ha.eval.imp fun b u _ hb _ => .pure ⟨b, rfl, hb⟩)

theorem conditional
    (h : e₁.Yields c σ s fun v t => if v.isTruthy then e₂.Yields c σ t P else e₃.Yields c σ t P) :
    (Expr.conditional e₁ e₂ e₃ span).Yields c σ s P := by
  unfold Expr.Yields
  rw [Eval.link]
  refine Comp.Yields.bind (h.eval.imp fun v t _ hv _ => ?_)
  split
  · next htrue =>
    rw [if_pos htrue] at hv
    exact Comp.Yields.bind (hv.eval.imp fun b u _ hb _ => .pure ⟨b, rfl, hb⟩)
  · next hfalse =>
    rw [if_neg hfalse] at hv
    exact Comp.Yields.bind (hv.eval.imp fun b u _ hb _ => .pure ⟨b, rfl, hb⟩)

theorem template {parts : List TemplatePart} {es : List Expr}
    (h : (Eval.texts c es σ).Yields s fun texts t => P (.string (interleave parts texts)) t) :
    (Expr.template parts es span).Yields c σ s P := by
  unfold Expr.Yields
  rw [Eval.link]
  exact Comp.Yields.bind (h.imp fun texts t _ ht _ => .pure ⟨_, rfl, ht⟩)

end Expr.Yields

/-- A text is its own text. -/
theorem Value.toText_string (text : String) (s : Store) : (Value.string text).toText.run s = (.ok text, s) :=
  Act.run_read rfl

section

variable {e : Expr} {es : List Expr} {items : List Item} {P : List Value → Store → Prop}

theorem Eval.values_nil_yields (h : P [] s) : (Eval.values c [] σ).Yields s P := by
  rw [Eval.values]
  exact .pure h

theorem Eval.values_cons_yields
    (h : e.Yields c σ s fun v t => (Eval.values c items σ).Yields t fun vs u => P (v :: vs) u) :
    (Eval.values c (.expr e :: items) σ).Yields s P := by
  rw [Eval.values]
  exact Comp.Yields.bind (h.eval.imp fun v t _ hv _ => Comp.Yields.bind (hv.imp fun vs u _ hvs _ => .pure hvs))

theorem Eval.texts_nil_yields {P : List String → Store → Prop} (h : P [] s) : (Eval.texts c [] σ).Yields s P := by
  rw [Eval.texts]
  exact .pure h

theorem Eval.texts_cons_yields {P : List String → Store → Prop}
    (h : e.Yields c σ s fun v t => ∃ text, v = .string text ∧ (Eval.texts c es σ).Yields t fun texts u => P (text :: texts) u) :
    (Eval.texts c (e :: es) σ).Yields s P := by
  rw [Eval.texts]
  refine Comp.Yields.bind (h.eval.imp ?_)
  rintro _ t - ⟨text, rfl, hrest⟩ -
  refine Comp.Yields.bind (.ofAct (Value.toText_string text t) (.refl t) fun _ => ?_)
  exact Comp.Yields.bind (hrest.imp fun texts u _ h _ => .pure h)

end

/-! ## Calls -/

/-- What the parameters of a function stand for in a call. -/
def boundArguments : List Ident → List Value → List (String × Binding)
  | [], _ => []
  | id :: ids, args => (id.name, ⟨args.head?.getD .undefined, false⟩) :: boundArguments ids (args.drop 1)

/-- A store with another frame. -/
def Store.withFrame (s : Store) (entries : List (String × Binding)) : Store :=
  { s with frames := s.frames.push entries }

theorem Store.Continues.withFrame (s : Store) (entries : List (String × Binding)) : s.Continues (s.withFrame entries) :=
  ⟨⟨id, id⟩, id, getElem?_push, rfl⟩

/-- What is in sight where a frame was added. -/
theorem Store.withFrame_bounds (entries : List (String × Binding)) (hσ : ∀ f ∈ σ, f.index < s.frames.size) :
    ∀ f ∈ ⟨s.frames.size⟩ :: σ, f.index < (s.withFrame entries).frames.size := by
  have hsize : (s.withFrame entries).frames.size = s.frames.size + 1 := Array.size_push _
  intro f hf
  rw [hsize]
  rcases List.mem_cons.1 hf with rfl | hf
  · exact Nat.lt_succ_self _
  · exact Nat.lt_succ_of_lt (hσ f hf)

/-- The variables in sight where a frame was added. -/
theorem Store.Continues.find?_withFrame {entries : List (String × Binding)} (h : (s.withFrame entries).Continues t)
    (hσ : ∀ f ∈ σ, f.index < s.frames.size) (name : String) :
    Scope.find? t name (⟨s.frames.size⟩ :: σ) = (entries.lookup name).or (Scope.find? s name σ) := by
  have hown : t.frame ⟨s.frames.size⟩ = entries := by
    have hlast : (s.withFrame entries).frames[s.frames.size]? = some entries := by simp [Store.withFrame]
    unfold Store.frame
    rw [h.frames hlast, Option.getD_some]
  have houter := ((Store.Continues.withFrame s entries).trans h).find? hσ name
  rw [Scope.find?, hown, houter]
  cases entries.lookup name <;> rfl

/-- Parameters that are names are declared one after another. -/
theorem Eval.bindElements_idents (ids : List Ident) (args : List Value) (es : List (String × Binding)) :
    Eval.bindElements c (ids.map .ident) args (.declare false) (⟨s.frames.size⟩ :: σ) (s.withFrame es) =
      .done (.ok ()) (s.withFrame (Entries.setAll es (boundArguments ids args))) := by
  induction ids generalizing args es with
  | nil =>
      rw [List.map_nil, Eval.bindElements]
      rfl
  | cons id ids ih =>
      have hdeclare : (Scope.declare (⟨s.frames.size⟩ :: σ) id.name (args.head?.getD .undefined) false).run
          (s.withFrame es) = (.ok (), s.withFrame (Entries.set id.name ⟨args.head?.getD .undefined, false⟩ es)) := by
        show (Except.ok (), (s.withFrame es).modifyFrame ⟨s.frames.size⟩ _) = _
        unfold Store.modifyFrame Store.withFrame
        simp only [push_modify]
      rw [List.map_cons, Eval.bindElements_cons (p := .ident id) _ _ nofun, Eval.bindPattern]
      exact (Comp.ofAct_bind hdeclare _).trans (ih _ _)

/-- A function whose parameters are names is called: its body comes to a value in a frame of its own. -/
theorem callFunction_yields {setting : Setting} {rounds levels : Nat} {ref : ClosureRef} {ids : List Ident} {e : Expr}
    {args : List Value} {P : Value → Store → Prop}
    (hclosure : s.closures[ref.index]? = some ⟨ids.map .ident, .expr e, false, σ⟩)
    (hbody : e.Yields { setting with call := setting.callFunction rounds levels, rounds := rounds }
      (⟨s.frames.size⟩ :: σ) (s.withFrame (Entries.setAll [] (boundArguments ids args))) P) :
    (setting.callFunction rounds (levels + 1) (.closure ref) args).Yields s P := by
  have hget : (Act.closure ref).run s = (.ok ⟨ids.map .ident, .expr e, false, σ⟩, s) := Act.closure_ok hclosure
  have hchild : (Scope.child σ).run s = (.ok (⟨s.frames.size⟩ :: σ), s.withFrame []) := rfl
  have hrun : setting.callFunction rounds (levels + 1) (.closure ref) args s =
      e.eval { setting with call := setting.callFunction rounds levels, rounds := rounds } (⟨s.frames.size⟩ :: σ)
        (s.withFrame (Entries.setAll [] (boundArguments ids args))) := by
    rw [Setting.callFunction]
    refine (Comp.ofAct_bind hget _).trans ?_
    refine (Comp.ofAct_bind hchild _).trans ?_
    show (Eval.bindElements _ _ _ _ _ _).bind _ = _
    rw [Eval.bindElements_idents]
    rfl
  obtain ⟨v, t, hdone, hst, hv⟩ := hbody.eval
  exact ⟨v, t, hrun.trans hdone, (Store.Continues.withFrame s _).trans hst, hv⟩

/-! ## Methods of arrays -/

/-- The values of a function for one thing after another, if they can be foretold. -/
theorem mapM_yields {f : α → Comp β} {g : α → β} {items : List α}
    (h : ∀ x ∈ items, ∀ t, s.Continues t → (f x).Yields t fun y _ => y = g x) :
    (items.mapM f).Yields s fun ys _ => ys = items.map g := by
  induction items generalizing s with
  | nil => exact .pure rfl
  | cons x items ih =>
      rw [List.mapM_cons]
      refine Comp.Yields.bind ((h x List.mem_cons_self s (.refl s)).imp ?_)
      rintro _ t hst rfl -
      refine Comp.Yields.bind ((ih fun x' hx' u htu => h x' (List.mem_cons_of_mem x hx') u (hst.trans htu)).imp ?_)
      rintro _ u - rfl -
      exact .pure rfl

namespace CallbackMethod

/-- The elements for which a test holds, if the test can be foretold. -/
theorem keep_yields {test : Value → Nat → Comp Bool} {p : Value → Bool} {items : List (Value × Nat)}
    (h : ∀ e ∈ items, ∀ t, s.Continues t → (test e.1 e.2).Yields t fun b _ => b = p e.1) :
    (keep test items).Yields s fun vs _ => vs = (items.map (·.1)).filter p := by
  induction items generalizing s with
  | nil => exact .pure rfl
  | cons e items ih =>
      obtain ⟨v, i⟩ := e
      rw [keep]
      refine Comp.Yields.bind ((h (v, i) List.mem_cons_self s (.refl s)).imp ?_)
      rintro _ t hst rfl -
      have hrest := ih fun e' he' u htu => h e' (List.mem_cons_of_mem (v, i) he') u (hst.trans htu)
      rw [List.map_cons, List.filter_cons]
      dsimp only
      split
      · refine Comp.Yields.bind (hrest.imp ?_)
        rintro _ u - rfl -
        exact .pure rfl
      · exact hrest

variable {invoke : Function → List Value → Comp Value} {a : ArrayRef} {items : Array Value} {f : Function}

theorem elements_run (hitems : s.arrays[a.index]? = some items) :
    ((Value.array a).elements).run s = (.ok items.toList, s) := by
  show (Except.ok (s.array a).toList, s) = _
  unfold Store.array
  rw [hitems]
  rfl

theorem mem_of_numbered {e : Value × Nat} (he : e ∈ items.toList.zipIdx) : e.1 ∈ items :=
  Array.mem_toList_iff.1 (List.fst_mem_of_mem_zipIdx he)

/-- Elements are filtered by a function that can be foretold. -/
theorem filter_yields {p : Value → Bool} (hitems : s.arrays[a.index]? = some items)
    (h : ∀ v ∈ items, ∀ i t, s.Continues t →
      (invoke f [v, .number (Float.ofNat i), .array a]).Yields t fun w _ => w.isTruthy = p v) :
    (call invoke .filter a [.function f]).Yields s fun w t => ∃ b, w = .array b ∧
      t.arrays[b.index]? = some (items.toList.filter p).toArray := by
  have hkeep : (keep (fun v i => do return (← invoke f [v, .number (Float.ofNat i), .array a]).isTruthy)
      items.toList.zipIdx).Yields s fun vs _ => vs = (items.toList.zipIdx.map (·.1)).filter p :=
    keep_yields fun e he t hst => Comp.Yields.bind
      ((h e.1 (mem_of_numbered he) e.2 t hst).imp fun w u _ hw _ => .pure hw)
  unfold call
  refine Comp.Yields.bind (.ofAct (elements_run hitems) (.refl s) fun _ => ?_)
  refine Comp.Yields.bind (hkeep.imp ?_)
  rintro _ t - rfl -
  rw [List.zipIdx_map_fst]
  exact .ofAct rfl (.addArray t _) ⟨_, rfl, Store.getElem?_addArray _⟩

/-- A function that can be foretold is mapped over elements. -/
theorem map_yields {g : Value → Value} (hitems : s.arrays[a.index]? = some items)
    (h : ∀ v ∈ items, ∀ i t, s.Continues t →
      (invoke f [v, .number (Float.ofNat i), .array a]).Yields t fun w _ => w = g v) :
    (call invoke .map a [.function f]).Yields s fun w t => ∃ b, w = .array b ∧
      t.arrays[b.index]? = some (items.toList.map g).toArray := by
  have hmap : (items.toList.zipIdx.mapM fun e => invoke f [e.1, .number (Float.ofNat e.2), .array a]).Yields s
      fun ws _ => ws = items.toList.zipIdx.map fun e => g e.1 :=
    mapM_yields fun e he t hst => h e.1 (mem_of_numbered he) e.2 t hst
  have hvalues : (items.toList.zipIdx.map fun e => g e.1) = items.toList.map g :=
    (List.map_map (g := g)).symm.trans (congrArg (List.map g) (List.zipIdx_map_fst 0 items.toList))
  rw [hvalues] at hmap
  unfold call
  refine Comp.Yields.bind (.ofAct (elements_run hitems) (.refl s) fun _ => ?_)
  refine Comp.Yields.bind (hmap.imp ?_)
  rintro _ t - rfl -
  exact .ofAct rfl (.addArray t _) ⟨_, rfl, Store.getElem?_addArray _⟩

end CallbackMethod

/-- Texts are joined. -/
theorem ArrayMethod.join_run {a : ArrayRef} {texts : List String} (separator : String)
    (hitems : s.arrays[a.index]? = some (texts.map Value.string).toArray) :
    (ArrayMethod.call .join a [.string separator]).run s = (.ok (.string (separator.intercalate texts)), s) := by
  have hparts : (((texts.map Value.string).mapM fun v => if v.isNullish then pure "" else v.toText) : Act (List String)).run s =
      (.ok texts, s) := by
    clear hitems
    induction texts with
    | nil => rfl
    | cons text texts ih =>
        rw [List.map_cons, List.mapM_cons]
        refine (Act.run_bind_ok (Value.toText_string text s)).trans ?_
        refine (Act.run_bind_ok ih).trans ?_
        rfl
  have hget : (MonadState.get : Act Store).run s = (.ok s, s) := rfl
  have harray : s.array a = (texts.map Value.string).toArray := by
    unfold Store.array
    rw [hitems, Option.getD_some]
  unfold ArrayMethod.call
  refine (Act.run_bind_ok hget).trans ?_
  refine (Act.run_bind_ok (Value.toText_string separator s)).trans ?_
  rw [harray]
  refine (Act.run_bind_ok hparts).trans ?_
  rfl

end FieldScript
