import FieldScript.Eval.Evaluate
import FieldScript.Proofs.Eval.Reads

/-!
# Actions that only look

Conversions, operators and the reading of properties and names look at the store and leave it as it is. The only names
that are different are those of the groups of functions: a group is a new object each time.

* `Act.Query`: an action after which the store is what it was before, whether or not it succeeded.
* One rule per way to put actions together, and one lemma per action of the evaluator that only looks.
-/

namespace FieldScript

/-- An action that only looks at the store, even if it halts. -/
def Act.Query {α : Type} (x : Act α) : Prop := ∀ s, (x.run s).2 = s

/-! ## Rules -/

namespace Act.Query

variable {α β : Type}

theorem pure (a : α) : (Pure.pure a : Act α).Query := fun _ => rfl

theorem raise (r : Raised) : (Act.raise r : Act α).Query := fun _ => rfl

theorem throw (h : Halt) : (MonadExcept.throw h : Act α).Query := fun _ => rfl

theorem get : (MonadState.get : Act Store).Query := fun _ => rfl

theorem bind {x : Act α} {f : α → Act β} (hx : x.Query) (hf : ∀ a, (f a).Query) : (x >>= f).Query := by
  intro s
  show (ExceptT.bindCont f (x.run s).1 (x.run s).2).2 = s
  rw [hx s]
  cases (x.run s).1 with
  | ok a => exact hf a s
  | error h => rfl

theorem read (f : Store → Except Abort α) : (Act.read f).Query := by
  refine get.bind fun s => ?_
  cases f s with
  | ok a => exact .pure a
  | error abort => exact .throw _

end Act.Query

/-- What can be read off the store is told, and the store stays as it is. -/
theorem Act.run_read_eq {α : Type} (f : Store → Except Abort α) (s : Store) :
    (Act.read f).run s = ((f s).mapError Halt.aborted, s) := by
  have hget : (get : Act Store).run s = (.ok s, s) := rfl
  unfold read
  rw [Act.run_bind_ok hget]
  cases f s <;> rfl

/-! ## Conversions and operators -/

namespace Value

theorem toText_query (v : Value) : v.toText.Query := .read _

theorem toNumber_query (v : Value) : v.toNumber.Query := .read _

theorem toInt32_query (v : Value) : v.toInt32.Query := v.toNumber_query.bind fun _ => .pure _

theorem looseEquals_query (a b : Value) : (a.looseEquals b).Query := by
  unfold looseEquals
  split
  · exact .pure _
  · split
    · exact .pure _
    · split <;> first | exact .pure _ | exact (toText_query _).bind fun _ => .pure _

theorem primitive_query (v : Value) : v.primitive.Query := by
  unfold primitive
  split <;> first | exact .pure _ | exact (toText_query _).bind fun _ => .pure _

theorem order?_query (a b : Value) : (a.order? b).Query := by
  unfold order?
  split
  · exact .pure _
  · exact (toNumber_query _).bind fun _ => (toNumber_query _).bind fun _ => .pure _

end Value

namespace BinaryOp

theorem onNumbers_query (f : Float → Float → Float) (a b : Value) : (onNumbers f a b).Query :=
  a.toNumber_query.bind fun _ => b.toNumber_query.bind fun _ => .pure _

theorem onIntegers_query (f : Int32 → Int32 → Int32) (a b : Value) : (onIntegers f a b).Query :=
  a.toInt32_query.bind fun _ => b.toInt32_query.bind fun _ => .pure _

theorem sum_query (a b : Value) : (sum a b).Query := by
  refine a.primitive_query.bind fun l => b.primitive_query.bind fun r => ?_
  split
  · exact (Value.toText_query _).bind fun _ => .pure _
  · exact (Value.toText_query _).bind fun _ => .pure _
  · exact (Value.toNumber_query _).bind fun _ => (Value.toNumber_query _).bind fun _ => .pure _

theorem search_query (a b : Value) : (search a b).Query := by
  unfold search
  split
  · exact a.toText_query.bind fun _ => Act.Query.get.bind fun _ => .pure _
  · exact a.toText_query.bind fun _ => Act.Query.get.bind fun _ => .pure _
  · exact a.toText_query.bind fun _ => (Value.toText_query _).bind fun _ => .raise _

theorem apply_query (op : BinaryOp) (a b : Value) : (op.apply a b).Query := by
  have hcompare : ∀ op : BinaryOp, Act.Query (do
      let l ← a.primitive
      let r ← b.primitive
      return Value.bool ((← l.order? r).any op.admits)) := fun op =>
    a.primitive_query.bind fun l => b.primitive_query.bind fun r =>
      (l.order?_query r).bind fun _ => .pure _
  cases op with
  | add => exact sum_query a b
  | eq | notEq => exact (a.looseEquals_query b).bind fun _ => .pure _
  | strictEq | strictNotEq => exact .pure _
  | less | greater | lessEq | greaterEq => exact hcompare _
  | isIn => exact search_query a b
  | instanceOf => exact .raise _
  | bitAnd | bitOr | bitXor | shl | shr => exact onIntegers_query _ a b
  | ushr => exact b.toInt32_query.bind fun _ => a.toInt32_query.bind fun _ => .pure _
  | sub | mul | div | mod | exp => exact onNumbers_query _ a b

end BinaryOp

theorem UnaryOp.apply_query (op : UnaryOp) (v : Value) : (op.apply v).Query := by
  cases op with
  | neg | plus => exact v.toNumber_query.bind fun _ => .pure _
  | bitNot => exact v.toInt32_query.bind fun _ => .pure _
  | not | typeOf | void | delete => exact .pure _

/-! ## Properties -/

theorem Value.get_query (v : Value) (key : String) : (v.get key).Query := by
  unfold Value.get
  split
  · exact v.toText_query.bind fun _ => .raise _
  · split
    · exact .pure _
    · split
      · exact Act.Query.get.bind fun _ => .pure _
      · refine Act.Query.get.bind fun s => ?_
        dsimp only
        split <;> exact .pure _
      · split <;> exact .pure _
      · exact .pure _

/-! ## Names -/

theorem Scope.lookup?_query (scope : Scope) (name : String) : (scope.lookup? name).Query :=
  Act.Query.get.bind fun _ => .pure _

/-- Whether a global name stands for a group of functions. -/
def Global.isGroup (name : String) : Bool :=
  match ofName? name with
  | some (.group _) => true
  | _ => false

theorem Global.read?_query {name : String} (h : isGroup name = false) : (Global.read? name).Query := by
  unfold Global.read?
  unfold isGroup at h
  split
  · exact .pure _
  · rename_i hgroup
    rw [hgroup] at h
    cases h
  · exact .pure _

namespace Setting

variable {name : String} (h : Global.isGroup name = false)

include h

theorem lookup_query (c : Setting) (scope : Scope) : (c.lookup name scope).Query := by
  refine (scope.lookup?_query name).bind fun v? => ?_
  split
  · exact .pure _
  · split
    · exact .pure _
    · split
      · exact Act.Query.get.bind fun _ => .pure _
      · refine (Global.read?_query h).bind fun v? => ?_
        split
        · exact .pure _
        · exact .raise _

theorem typeOfName_query (c : Setting) (scope : Scope) : (c.typeOfName name scope).Query := by
  intro s
  have hlookup : (c.lookup name scope s).2 = s := c.lookup_query h scope s
  show (c.typeOfName name scope s).2 = _
  unfold typeOfName
  simp only [tryCatch, tryCatchThe, MonadExceptOf.tryCatch, ExceptT.tryCatch, ExceptT.run, ExceptT.mk, bind,
    ExceptT.bind, StateT.bind]
  generalize c.lookup name scope s = result at hlookup ⊢
  obtain ⟨(halt | v), t⟩ := result
  · rcases halt with (_ | _ | _ | _) | _ <;> exact hlookup
  · exact hlookup

end Setting
end FieldScript
