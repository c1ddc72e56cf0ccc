import FieldScript.Eval.Call
import FieldScript.Proofs.Eval.Queries
import FieldScript.Proofs.Eval.Routines

/-!
# Actions that keep to a scope

The frames of scopes, the functions and the journal of external calls belong to the store, so every action could
change them. Apart from those that add a frame or a function and from the call of an external function, an action
changes at most the variables in sight, besides arrays and objects.

* `Store.Varies`: a store that differs from another one in arrays, objects and the variables in sight at most.
* `Change.Local` and `Act.Local`: a change or an action that leads to such a store, whether or not it succeeded.
* One rule per way to put actions together, and one lemma per action of the evaluator.
-/

namespace FieldScript

/-- What a store has besides arrays and objects. -/
def Store.behindCells (s : Store) : Array Closure × Array (List (String × Binding)) × Journal :=
  (s.closures, s.frames, s.journal)

/-- A store with other arrays and objects, and with other values for variables in sight, or with more of them. -/
structure Store.Varies (scope : Scope) (s t : Store) : Prop where
  closures : t.closures = s.closures
  journal : t.journal = s.journal
  size : t.frames.size = s.frames.size
  frame : ∀ f, f ∉ scope → t.frame f = s.frame f
  bound : ∀ f name, ((s.frame f).lookup name).isSome → ((t.frame f).lookup name).isSome

namespace Store.Varies

variable {scope : Scope} {s t u : Store}

theorem of_cells (h : t.behindCells = s.behindCells) : Varies scope s t := by
  simp only [behindCells, Prod.mk.injEq] at h
  obtain ⟨hclosures, hframes, hjournal⟩ := h
  have hframe : ∀ f, t.frame f = s.frame f := by
    intro f
    unfold Store.frame
    rw [hframes]
  refine ⟨hclosures, hjournal, by rw [hframes], fun f _ => hframe f, fun f name hname => ?_⟩
  rwa [hframe f]

theorem refl (s : Store) : Varies scope s s := of_cells rfl

theorem trans (h : Varies scope s t) (h' : Varies scope t u) : Varies scope s u where
  closures := h'.closures.trans h.closures
  journal := h'.journal.trans h.journal
  size := h'.size.trans h.size
  frame f hf := (h'.frame f hf).trans (h.frame f hf)
  bound f name hname := h'.bound f name (h.bound f name hname)

theorem mono {inner : Scope} (h : Varies inner s t) (hsub : inner ⊆ scope) : Varies scope s t :=
  { h with frame := fun f hf => h.frame f fun hmem => hf (hsub hmem) }

/-- A variable of a frame in sight. -/
theorem set {f : FrameRef} (hf : f ∈ scope) (s : Store) (name : String) (b : Binding) :
    Varies scope s (s.modifyFrame f (Entries.set name b)) := by
  refine ⟨rfl, rfl, Array.size_modify, fun g hg => Store.frame_modifyFrame_ne _ fun heq => hg (heq ▸ hf), ?_⟩
  intro g other hother
  by_cases hg : g = f
  · subst hg
    by_cases hbound : g.index < s.frames.size
    · rw [Store.frame_modifyFrame_self _ hbound, Entries.lookup_set]
      split
      · rfl
      · exact hother
    · have hframe : (s.modifyFrame g (Entries.set name b)).frame g = s.frame g := by
        simp [Store.frame, Store.modifyFrame, hbound]
      rwa [hframe]
  · rwa [Store.frame_modifyFrame_ne _ hg]

end Store.Varies

/-- A change that keeps to a scope. -/
def Change.Local {α : Type} (scope : Scope) (x : Change α) : Prop := ∀ s, Store.Varies scope s (x.run s).2

/-- An action that keeps to a scope, even if it halts. -/
def Act.Local {α : Type} (scope : Scope) (x : Act α) : Prop := Change.Local scope x.run

variable {scope : Scope}

/-- What changes no variable keeps to every scope. -/
theorem Act.Local.of_nil {α : Type} {x : Act α} (h : x.Local []) : x.Local scope :=
  fun s => (h s).mono (List.nil_subset scope)

/-- An action that only looks keeps to every scope. -/
theorem Act.Query.isLocal {α : Type} {x : Act α} (h : x.Query) : x.Local scope := fun s => (h s).symm ▸ .refl s

/-! ## Rules -/

namespace Change.Local

variable {α β : Type}

theorem pure (a : α) : (Pure.pure a : Change α).Local scope := fun s => .refl s

theorem bind {x : Change α} {f : α → Change β} (hx : x.Local scope) (hf : ∀ a, (f a).Local scope) :
    (x >>= f).Local scope := fun s => (hx s).trans (hf (x.run s).1 (x.run s).2)

theorem cells {f : Store → α × Store} (hf : ∀ s, (f s).2.behindCells = s.behindCells) :
    (modifyGet f : Change α).Local scope := fun s => .of_cells (hf s)

end Change.Local

namespace Act.Local

variable {α β : Type}

theorem pure (a : α) : (Pure.pure a : Act α).Local scope := fun s => .refl s

theorem raise (r : Raised) : (Act.raise r : Act α).Local scope := fun s => .refl s

theorem get : (MonadState.get : Act Store).Local scope := fun s => .refl s

/-- A change of arrays and objects. -/
theorem update {f : Store → Store} (hf : ∀ s, (f s).behindCells = s.behindCells) :
    (modify f : Act Unit).Local scope := fun s => .of_cells (hf s)

theorem lift {x : Change α} (hx : x.Local scope) : (liftM x : Act α).Local scope := hx

theorem bind {x : Act α} {f : α → Act β} (hx : x.Local scope) (hf : ∀ a, (f a).Local scope) :
    (x >>= f).Local scope := by
  refine Change.Local.bind (x := x.run) (f := ExceptT.bindCont f) hx fun r => ?_
  cases r with
  | ok a => exact hf a
  | error h => exact .pure _

theorem read (f : Store → Except Abort α) : (Act.read f).Local scope := (Query.read f).isLocal

theorem mapM {f : α → Act β} (hf : ∀ a, (f a).Local scope) (xs : List α) : (xs.mapM f).Local scope := by
  induction xs with
  | nil => exact .pure []
  | cons x xs ih =>
      rw [List.mapM_cons]
      exact (hf x).bind fun _ => ih.bind fun _ => .pure _

theorem forIn {f : α → β → Act (ForInStep β)} (hf : ∀ a b, (f a b).Local scope) (xs : List α) (b : β) :
    (ForIn.forIn xs b f).Local scope := by
  induction xs generalizing b with
  | nil => exact .pure b
  | cons x xs ih =>
      rw [List.forIn_cons]
      refine (hf x b).bind fun step => ?_
      cases step with
      | done b => exact .pure b
      | yield b => exact ih b

end Act.Local

/-! ## Cells and scopes -/

theorem Change.newArray_local (items : Array Value) : (newArray items).Local scope := fun _ => .of_cells rfl

theorem Change.newObject_local (entries : List (String × Value)) : (newObject entries).Local scope :=
  fun _ => .of_cells rfl

theorem Change.raisedValue_local (r : Raised) : (raisedValue r).Local scope := by
  cases r with
  | thrown v => exact .pure v
  | _ => exact newObject_local _

namespace Scope

theorem declare_local (scope : Scope) (name : String) (value : Value) (constant : Bool) :
    (scope.declare name value constant).Local scope := by
  cases scope with
  | nil => exact .pure ()
  | cons f rest => exact fun s => .set List.mem_cons_self s name _

theorem lookup?_local (current : Scope) (name : String) : (current.lookup? name).Local scope :=
  Act.Local.get.bind fun _ => .pure _

/-- Assignment to a variable of the frames of a scope, of which these may be the last ones. -/
theorem assign_local_of_subset {inner : Scope} (h : inner ⊆ scope) (name : String) (value : Value) :
    (inner.assign name value).Local scope := by
  induction inner with
  | nil => exact .pure false
  | cons f rest ih =>
      refine Act.Local.get.bind fun s => ?_
      split
      · split
        · exact .raise _
        · exact Act.Local.bind (fun s => .set (h List.mem_cons_self) s name _) fun _ => .pure _
      · exact ih fun g hg => h (List.mem_cons_of_mem _ hg)

theorem assign_local (scope : Scope) (name : String) (value : Value) : (scope.assign name value).Local scope :=
  assign_local_of_subset (List.Subset.refl scope) name value

end Scope

/-! ## Conversions and operators -/

mutual

theorem Value.ofJson_local (j : Json) : (Value.ofJson j).Local scope := by
  cases j with
  | array items =>
      rw [Value.ofJson]
      exact (Value.ofJsonItems_local items).bind fun _ => Change.newArray_local _
  | object members =>
      rw [Value.ofJson]
      exact (Value.ofJsonMembers_local members).bind fun _ => Change.newObject_local _
  | _ =>
      rw [Value.ofJson]
      exact .pure _

theorem Value.ofJsonItems_local (js : List Json) : (Value.ofJsonItems js).Local scope := by
  cases js with
  | nil =>
      rw [Value.ofJsonItems]
      exact .pure []
  | cons j rest =>
      rw [Value.ofJsonItems]
      exact (Value.ofJson_local j).bind fun _ => (Value.ofJsonItems_local rest).bind fun _ => .pure _

theorem Value.ofJsonMembers_local (js : List (String × Json)) : (Value.ofJsonMembers js).Local scope := by
  match js with
  | [] =>
      rw [Value.ofJsonMembers]
      exact .pure []
  | (name, j) :: rest =>
      rw [Value.ofJsonMembers]
      exact (Value.ofJson_local j).bind fun _ => (Value.ofJsonMembers_local rest).bind fun _ => .pure _

end

namespace Value

theorem toText_local (v : Value) : v.toText.Local scope := v.toText_query.isLocal

theorem toNumber_local (v : Value) : v.toNumber.Local scope := v.toNumber_query.isLocal

theorem toDocument?_local (v : Value) : v.toDocument?.Local scope := .read _

theorem toDocument_local (v : Value) : v.toDocument.Local scope := .read _

end Value

theorem BinaryOp.apply_local (op : BinaryOp) (a b : Value) : (op.apply a b).Local scope := (op.apply_query a b).isLocal

theorem UnaryOp.apply_local (op : UnaryOp) (v : Value) : (op.apply v).Local scope := (op.apply_query v).isLocal

/-! ## Properties -/

theorem arrayLength_local (x : Float) : (arrayLength x).Local scope := by
  unfold arrayLength
  split
  · exact .pure _
  · exact .raise _

theorem checkTextLength_local (n : Nat) : (checkTextLength n).Local scope := by
  unfold checkTextLength
  split
  · exact .raise _
  · exact .pure _

/-- Methods of arrays leave the journal alone. -/
theorem Act.local_routine : Act.Routine fun {_} => Act.Local scope where
  pure := .pure
  bind := .bind
  get := .get
  raise := .raise
  write _ _ := .update fun _ => rfl
  put _ _ := .update fun _ => rfl
  make items := .lift (Change.newArray_local items)
  text := Value.toText_local
  number := Value.toNumber_local
  flat _ _ := .read _

theorem relativePosition_local (v : Value) (size default : Nat) : (relativePosition v size default).Local scope :=
  Act.local_routine.relativePosition v size default

namespace Value

theorem elements_local (v : Value) : v.elements.Local scope := Act.local_routine.elements v

theorem ownEntries_local (v : Value) : v.ownEntries.Local scope := by
  cases v with
  | array a => exact Act.Local.get.bind fun _ => .pure _
  | object o => exact Act.Local.get.bind fun _ => .pure _
  | _ => exact .pure _

theorem get_local (v : Value) (key : String) : (v.get key).Local scope := (v.get_query key).isLocal

theorem set_local (v : Value) (key : String) (value : Value) : (v.set key value).Local scope := by
  unfold Value.set
  split
  · exact (toText_local _).bind fun _ => .raise _
  · exact (toText_local _).bind fun _ => .raise _
  · exact .update fun _ => rfl
  · split
    · exact Act.Local.bind (.read _) fun x => (arrayLength_local x).bind fun _ => .update fun _ => rfl
    · split
      · exact .pure _
      · refine Act.Local.get.bind fun s => ?_
        split
        · split
          · exact .raise _
          · exact .update fun _ => rfl
        · exact .update fun _ => rfl
  · exact .pure _

theorem erase_local (v : Value) (key : String) : (v.erase key).Local scope := by
  cases v with
  | object o => exact .update fun _ => rfl
  | _ => exact .pure _

end Value

/-! ## Methods and global functions -/

theorem plainPosition_local (v : Value) (size default : Nat) : (plainPosition v size default).Local scope := by
  unfold plainPosition
  split
  · exact .pure _
  · exact (Value.toNumber_local _).bind fun _ => .pure _

namespace TextMethod

theorem padding_local (chars : List Char) (args : List Value) : (padding chars args).Local scope := by
  have hfill : ∀ (width : Nat) (fill : List Char), Act.Local scope (if width ≤ chars.length || fill.isEmpty
      then return [] else do checkTextLength width; return cycled fill (width - chars.length)) := by
    intro width fill
    split
    · exact .pure _
    · exact (checkTextLength_local _).bind fun _ => .pure _
  refine (Value.toNumber_local _).bind fun x => ?_
  dsimp only
  split
  · exact (Act.Local.pure _).bind fun fill => hfill _ fill
  · exact (Value.toText_local _).bind fun _ => (Act.Local.pure _).bind fun fill => hfill _ fill

theorem call_local (m : TextMethod) (s : String) (args : List Value) : (m.call s args).Local scope := by
  have htext : ∀ i, Act.Local scope (do return (← (argument args i).toText).toList) :=
    fun i => (Value.toText_local _).bind fun _ => .pure _
  cases m with
  | split =>
      unfold call
      dsimp only
      split
      · exact Change.newArray_local _
      · exact (Value.toText_local _).bind fun _ => Change.newArray_local _
  | includes | startsWith | endsWith | indexOf | lastIndexOf => exact (htext 0).bind fun _ => .pure _
  | slice =>
      exact (relativePosition_local _ _ _).bind fun _ => (relativePosition_local _ _ _).bind fun _ => .pure _
  | substring => exact (plainPosition_local _ _ _).bind fun _ => (plainPosition_local _ _ _).bind fun _ => .pure _
  | replace | replaceAll => exact (htext 0).bind fun _ => (htext 1).bind fun _ => .pure _
  | charAt => exact (Value.toNumber_local _).bind fun _ => .pure _
  | padStart | padEnd => exact (padding_local _ _).bind fun _ => .pure _
  | «repeat» =>
      refine (Value.toNumber_local _).bind fun x => ?_
      split
      · exact .raise _
      · refine (checkTextLength_local _).bind fun _ => ?_
        split <;> exact .pure _
  | concat => exact (Act.Local.mapM Value.toText_local args).bind fun _ => .pure _
  | _ => exact .pure _

end TextMethod

theorem NumberMethod.call_local (m : NumberMethod) (x : Float) (args : List Value) : (m.call x args).Local scope := by
  cases m with
  | toFixed =>
      refine (Value.toNumber_local _).bind fun digits => ?_
      dsimp only
      split
      · exact .raise _
      · exact .pure _
  | toString => exact .pure _

theorem ArrayMethod.call_local (m : ArrayMethod) (a : ArrayRef) (args : List Value) : (m.call a args).Local scope :=
  ArrayMethod.call_routine Act.local_routine m a args

theorem Global.read?_local (name : String) : (Global.read? name).Local scope := by
  unfold Global.read?
  split
  · exact .pure _
  · exact Act.Local.bind (Change.newObject_local _) fun _ => .pure _
  · exact .pure _

namespace Builtin

theorem throwNamed_local {α : Type} (name message : String) : (throwNamed name message : Act α).Local scope :=
  Act.Local.bind (Change.newObject_local _) fun _ => .raise _

theorem consoleText_local (v : Value) : (consoleText v).Local scope := by
  unfold consoleText
  split
  · exact .pure _
  · refine Act.Local.bind ((Value.toDocument?_local _).bind fun _ => .pure _) fun text? => ?_
    split
    · exact .pure _
    · exact Value.toText_local _

theorem pairs_local (entries : List (String × Value)) : (pairs entries).Local scope :=
  .mapM (fun _ => .lift (Change.newArray_local _)) entries

theorem entryOfPair_local (pair : Value) : (entryOfPair pair).Local scope :=
  pair.elements_local.bind fun _ => (Value.toText_local _).bind fun _ => .pure _

theorem callPlain_local (b : Builtin) (args : List Value) : (b.callPlain args).Local scope := by
  have hnumber : ∀ f : Float → Float, Act.Local scope (do return Value.number (f (← (argument args 0).toNumber))) :=
    fun f => (Value.toNumber_local _).bind fun _ => .pure _
  cases b with
  | promiseAll | promiseResolve | promiseReject | arrayIsArray | boolean => exact .pure _
  | objectKeys | objectValues =>
      exact (Value.ownEntries_local _).bind fun _ => Change.newArray_local _
  | objectEntries =>
      exact (Value.ownEntries_local _).bind fun es => (pairs_local es).bind fun _ => Change.newArray_local _
  | objectAssign =>
      unfold callPlain
      dsimp only
      split
      · refine Act.Local.bind (.forIn (fun source _ => ?_) _ _) fun _ => .pure _
        exact source.ownEntries_local.bind fun _ => Act.Local.bind (.update fun _ => rfl) fun _ => .pure _
      · exact .raise _
  | objectFromEntries =>
      exact (Value.elements_local _).bind fun items => (Act.Local.mapM entryOfPair_local items).bind fun _ =>
        Change.newObject_local _
  | arrayFrom =>
      unfold callPlain
      dsimp only
      split
      · exact (Value.elements_local _).bind fun _ => Change.newArray_local _
      · exact (Value.elements_local _).bind fun _ => Change.newArray_local _
      · have hlength : ∀ x : Float, Act.Local scope (do
            let n ← arrayLength (if x.isNaN || x < 0 then 0.0 else Number.trunc x)
            Change.newArray (Array.replicate n .undefined)) :=
          fun x => (arrayLength_local _).bind fun _ => .lift (Change.newArray_local _)
        refine Act.Local.get.bind fun s => ?_
        split
        · exact (Value.toNumber_local _).bind hlength
        · exact (Act.Local.pure _).bind hlength
      · exact Change.newArray_local _
  | mathAbs | mathCeil | mathFloor | mathRound | mathTrunc | mathSign | mathSqrt => exact hnumber _
  | mathPow => exact (Value.toNumber_local _).bind fun _ => (Value.toNumber_local _).bind fun _ => .pure _
  | mathMax | mathMin => exact (Act.Local.mapM Value.toNumber_local args).bind fun _ => .pure _
  | jsonStringify =>
      refine (Value.toDocument?_local _).bind fun j? => ?_
      split <;> exact .pure _
  | jsonParse =>
      refine (Value.toText_local _).bind fun text => ?_
      dsimp only
      split
      · exact Value.ofJson_local _
      · exact throwNamed_local _ _
  | encodeURIComponent | parseFloat => exact (Value.toText_local _).bind fun _ => .pure _
  | isNaN => exact (Value.toNumber_local _).bind fun _ => .pure _
  | decodeURIComponent =>
      refine (Value.toText_local _).bind fun text => ?_
      split
      · exact .pure _
      · exact throwNamed_local _ _
  | parseInt =>
      have hread : ∀ radix : Nat, Act.Local scope (do
          return Value.number (Number.readWhole (← (argument args 0).toText) radix)) :=
        fun radix => (Value.toText_local _).bind fun _ => .pure _
      unfold callPlain
      dsimp only
      split
      · exact (Act.Local.pure _).bind hread
      · exact (Value.toNumber_local _).bind fun _ => (Act.Local.pure _).bind hread
  | number =>
      unfold callPlain
      dsimp only
      split
      · exact .pure _
      · exact hnumber id
  | string =>
      unfold callPlain
      dsimp only
      split
      · exact .pure _
      · exact (Value.toText_local _).bind fun _ => .pure _
  | consoleLog => exact (Act.Local.mapM consoleText_local args).bind fun _ => .pure _
  | assert =>
      unfold callPlain
      dsimp only
      split
      · exact .pure _
      · split
        · exact throwNamed_local _ _
        · exact (Value.toText_local _).bind fun _ => throwNamed_local _ _

end Builtin

/-! ## Names -/

namespace Setting

theorem lookup_local (c : Setting) (name : String) (current : Scope) : (c.lookup name current).Local scope := by
  refine (Scope.lookup?_local current name).bind fun v? => ?_
  split
  · exact .pure _
  · split
    · exact .pure _
    · split
      · exact Act.Local.get.bind fun _ => .pure _
      · refine (Global.read?_local name).bind fun v? => ?_
        split
        · exact .pure _
        · exact .raise _

theorem typeOfName_local (c : Setting) (name : String) (current : Scope) :
    (c.typeOfName name current).Local scope := by
  intro s
  have hlookup : Store.Varies scope s (c.lookup name current s).2 := c.lookup_local name current s
  show Store.Varies scope s (c.typeOfName name current s).2
  unfold typeOfName
  simp only [tryCatch, tryCatchThe, MonadExceptOf.tryCatch, ExceptT.tryCatch, ExceptT.run, ExceptT.mk, bind,
    ExceptT.bind, StateT.bind]
  generalize c.lookup name current s = result at hlookup ⊢
  obtain ⟨(halt | v), t⟩ := result
  · rcases halt with (_ | _ | _ | _) | _ <;> exact hlookup
  · exact hlookup

theorem assign_local (c : Setting) (name : String) (value : Value) (scope : Scope) :
    (c.assign name value scope).Local scope := by
  refine (scope.assign_local name value).bind fun assigned => ?_
  split
  · exact .pure _
  · split
    · exact .raise _
    · split
      · exact .update fun _ => rfl
      · exact .raise _

end Setting

theorem Act.closure_local (ref : ClosureRef) : (Act.closure ref).Local scope := by
  refine Act.Local.get.bind fun s => ?_
  split
  · exact .pure _
  · exact .raise _

end FieldScript
