import FieldScript.Eval.Builtin
import FieldScript.Proofs.Eval.Conversions

/-!
# Reading values that are alike

What an operation reads off a value it reads off every value that is like it. All operators, accesses
and walks through elements are of this kind.

* `Act.Reads`: two actions that change nothing, the second of which succeeds with a related result if
  the first one succeeds. There is one rule for each way of putting actions together.
* One lemma for each operation: `Value.get_reads`, `BinaryOp.apply_reads` and so on.
-/

namespace FieldScript

/-! ## Actions that change nothing -/

namespace Act

section

variable {α γ : Type} {a : Act α} {f : α → Act γ} {s t : Store}

theorem run_bind_ok {x : α} (h : a.run s = (.ok x, t)) : (a >>= f).run s = (f x).run t := by
  show ExceptT.bindCont f (a.run s).1 (a.run s).2 = _
  rw [h]
  rfl

theorem run_bind_error {e : Halt} (h : a.run s = (.error e, t)) : (a >>= f).run s = (.error e, t) := by
  show ExceptT.bindCont f (a.run s).1 (a.run s).2 = _
  rw [h]
  rfl

end

/-- An action that changes nothing in one store, and another that does the same in a second store if
the first one succeeds. -/
def Reads {α δ : Type} (T S : Store) (a : Act α) (b : Act δ) (R : α → δ → Prop) : Prop :=
  ∃ r, a.run T = (r, T) ∧ ∀ x, r = .ok x → ∃ y, b.run S = (.ok y, S) ∧ R x y

namespace Reads

variable {α γ δ ε : Type} {T S : Store} {a : Act α} {b : Act δ} {R R' : α → δ → Prop}

theorem pure {x : α} {y : δ} (h : R x y) : Reads T S (Pure.pure x) (Pure.pure y) R := by
  refine ⟨.ok x, rfl, ?_⟩
  rintro _ ⟨⟩
  exact ⟨y, rfl, h⟩

theorem raise {r : Raised} : Reads T S (Act.raise r : Act α) b R :=
  ⟨.error (.raised r), rfl, fun _ h => nomatch h⟩

theorem bind {f : α → Act γ} {g : δ → Act ε} {Q : γ → ε → Prop} (h : Reads T S a b R)
    (hrest : ∀ x y, R x y → Reads T S (f x) (g y) Q) : Reads T S (a >>= f) (b >>= g) Q := by
  obtain ⟨r, hrun, hok⟩ := h
  cases r with
  | error e => exact ⟨.error e, run_bind_error hrun, fun _ h => nomatch h⟩
  | ok x =>
      obtain ⟨y, hy, hxy⟩ := hok x rfl
      obtain ⟨r', hrun', hok'⟩ := hrest x y hxy
      refine ⟨r', (run_bind_ok hrun).trans hrun', fun z hz => ?_⟩
      obtain ⟨u, hu, hzu⟩ := hok' z hz
      exact ⟨u, (run_bind_ok hy).trans hu, hzu⟩

/-- What is read off the stores as a whole. -/
theorem get_bind {f : Store → Act γ} {g : Store → Act ε} {Q : γ → ε → Prop}
    (h : Reads T S (f T) (g S) Q) : Reads T S ((get : Act Store) >>= f) ((get : Act Store) >>= g) Q := h

theorem read {f : Store → Except Abort α} {g : Store → Except Abort δ}
    (h : ∀ x, f T = .ok x → ∃ y, g S = .ok y ∧ R x y) : Reads T S (Act.read f) (Act.read g) R := by
  refine get_bind ?_
  cases hf : f T with
  | error e => exact ⟨.error (.aborted e), rfl, fun _ h => nomatch h⟩
  | ok x =>
      obtain ⟨y, hy, hxy⟩ := h x hf
      rw [hy]
      exact pure hxy

end Reads

end Act

open Act (Reads)

variable {T S : Store} {β : Pairing} {v w v' w' : Value}

/-! ## Conversions -/

namespace Value

theorem Like.string (t : String) : Like β (.string t) (.string t) := .atom _ rfl rfl

theorem Like.number (x : Float) : Like β (.number x) (.number x) := .atom _ rfl rfl

theorem Like.bool (b : Bool) : Like β (.bool b) (.bool b) := .atom _ rfl rfl

theorem Like.undefined : Like β .undefined .undefined := .atom _ rfl rfl

theorem toText_reads (h : Heap T β S) (hvw : v.Like β w) : Reads T S v.toText w.toText Eq :=
  Reads.read fun t ht => ⟨t, h.text_eq hvw ht, rfl⟩

theorem toNumber_reads (h : Heap T β S) (hvw : v.Like β w) : Reads T S v.toNumber w.toNumber Eq :=
  Reads.read fun x hx => ⟨x, h.numberOf_eq .none hvw hx, rfl⟩

theorem toInt32_reads (h : Heap T β S) (hvw : v.Like β w) : Reads T S v.toInt32 w.toInt32 Eq :=
  (toNumber_reads h hvw).bind fun _ _ hx => hx ▸ Reads.pure rfl

theorem toDocument_reads (h : Heap T β S) (hvw : v.Like β w) : Reads T S v.toDocument w.toDocument Eq :=
  Reads.read fun j hj => ⟨j, h.document_eq hvw hj, rfl⟩

/-- The documents of values one after another. -/
theorem toDocuments_reads {vs ws : List Value} (h : Heap T β S) (hlike : vs.Forall₂ (Like β) ws) :
    Reads T S (vs.mapM toDocument) (ws.mapM toDocument) Eq := by
  induction hlike with
  | nil => exact Reads.pure rfl
  | cons hvw _ ih =>
      rw [List.mapM_cons, List.mapM_cons]
      refine (toDocument_reads h hvw).bind fun j _ hj => ?_
      subst hj
      refine ih.bind fun js _ hjs => ?_
      subst hjs
      exact Reads.pure rfl

/-! ## Elements and entries -/

theorem elements_reads (h : Heap T β S) (hvw : v.Like β w) :
    Reads T S v.elements w.elements (List.Forall₂ (Like β)) := by
  cases hvw with
  | array hpair => exact Reads.get_bind (Reads.pure (h.array_like hpair))
  | atom v hcell =>
      cases v with
      | array a => cases hcell
      | string s =>
          refine Reads.pure (List.forall₂_same.2 fun v hv => ?_)
          obtain ⟨c, -, rfl⟩ := List.mem_map.1 hv
          exact Like.string _
      | _ => exact Reads.raise
  | _ => exact Reads.raise

/-- Positions as names. -/
theorem numbered_like {vs ws : List Value} (h : vs.Forall₂ (Like β) ws) :
    (numbered vs).Forall₂ (LikeEntry β) (numbered ws) := by
  have hfrom : ∀ n, ((vs.zipIdx n).map fun e => (Nat.repr e.2, e.1)).Forall₂ (LikeEntry β)
      ((ws.zipIdx n).map fun e => (Nat.repr e.2, e.1)) := by
    induction h with
    | nil => exact fun n => .nil
    | cons hvw _ ih => exact fun n => .cons ⟨rfl, hvw⟩ (ih (n + 1))
  exact hfrom 0

theorem ownEntries_reads (h : Heap T β S) (hvw : v.Like β w) :
    Reads T S v.ownEntries w.ownEntries (List.Forall₂ (LikeEntry β)) := by
  cases hvw with
  | array hpair => exact Reads.get_bind (Reads.pure (numbered_like (h.array_like hpair)))
  | object hpair => exact Reads.get_bind (Reads.pure (h.object_like hpair))
  | atom v hcell =>
      cases v with
      | array a => cases hcell
      | object o => cases hcell
      | string s =>
          refine Reads.pure (numbered_like (List.forall₂_same.2 fun v hv => ?_))
          obtain ⟨c, -, rfl⟩ := List.mem_map.1 hv
          exact Like.string _
      | _ => exact Reads.pure .nil
  | _ => exact Reads.pure .nil

/-! ## Properties -/

theorem lookup_like {es fs : List (String × Value)} (h : es.Forall₂ (LikeEntry β) fs) (key : String) :
    ((es.lookup key).getD .undefined).Like β ((fs.lookup key).getD .undefined) ∧
      (es.lookup key).isSome = (fs.lookup key).isSome := by
  induction h with
  | nil => exact ⟨Like.undefined, rfl⟩
  | @cons e f es fs hef _ ih =>
      obtain ⟨name, v⟩ := e
      obtain ⟨name', w⟩ := f
      obtain ⟨rfl, hvw⟩ : name = name' ∧ v.Like β w := hef
      rw [List.lookup_cons, List.lookup_cons]
      cases key == name with
      | true => exact ⟨hvw, rfl⟩
      | false => exact ih

theorem getElem?_like {vs ws : List Value} (h : vs.Forall₂ (Like β) ws) (i : Nat) :
    (vs[i]?.getD .undefined).Like β (ws[i]?.getD .undefined) := by
  induction h generalizing i with
  | nil => exact Like.undefined
  | cons hvw _ ih =>
      cases i with
      | zero => exact hvw
      | succ i => simpa using ih i

/-- A method that a value has is bound to the value. -/
theorem method?_like (hvw : v.Like β w) (key : String) :
    Option.Rel (fun m n => (Value.function (.method m)).Like β (.function (.method n))) (v.method? key)
      (w.method? key) := by
  cases hvw with
  | @array a b hpair =>
      simp only [method?]
      cases ArrayMethod.ofName? key with
      | some m => exact .some (.method m hpair)
      | none =>
          cases CallbackMethod.ofName? key with
          | some m => exact .some (.callback m hpair)
          | none => exact .none
  | atom v hcell hpromise =>
      cases v with
      | array a => cases hcell
      | promise p => cases hpromise
      | string s =>
          simp only [method?]
          cases TextMethod.ofName? key with
          | some m => exact .some (.atom _ rfl rfl)
          | none => exact .none
      | number x =>
          simp only [method?]
          cases NumberMethod.ofName? key with
          | some m => exact .some (.atom _ rfl rfl)
          | none => exact .none
      | _ => exact .none
  | object => exact .none
  | method => exact .none
  | callback => exact .none

theorem get_reads (h : Heap T β S) (hvw : v.Like β w) (key : String) :
    Reads T S (v.get key) (w.get key) (Like β) := by
  unfold get
  rw [hvw.isNullish_eq]
  by_cases hnullish : v.isNullish
  · rw [if_pos hnullish, if_pos hnullish]
    exact (toText_reads h hvw).bind fun _ _ _ => Reads.raise
  · rw [if_neg hnullish, if_neg hnullish]
    have hmethod := method?_like hvw key
    generalize hm : v.method? key = m at hmethod ⊢
    generalize hn : w.method? key = n at hmethod ⊢
    cases hmethod with
    | some hlike => exact Reads.pure hlike
    | none =>
        cases hvw with
        | @array a b hpair =>
            refine Reads.get_bind ?_
            have hitems := h.array_like hpair
            have hsize : (S.array b).size = (T.array a).size := by simpa using hitems.length_eq.symm
            by_cases hkey : key = "length"
            · rw [if_pos hkey, if_pos hkey, hsize]
              exact Reads.pure (Like.number _)
            · rw [if_neg hkey, if_neg hkey]
              refine Reads.pure ?_
              cases arrayIndex? key with
              | none => exact Like.undefined
              | some i => simpa using getElem?_like hitems i
        | object hpair => exact Reads.get_bind (Reads.pure (lookup_like (h.object_like hpair) key).1)
        | atom v hcell =>
            cases v with
            | array a => cases hcell
            | object o => cases hcell
            | string s =>
                show Reads T S (if key = "length" then _ else _) (if key = "length" then _ else _) _
                by_cases hkey : key = "length"
                · rw [if_pos hkey]
                  exact Reads.pure (Like.number _)
                · rw [if_neg hkey]
                  refine Reads.pure ?_
                  cases (arrayIndex? key).bind fun i => s.toList[i]? with
                  | none => exact Like.undefined
                  | some c => exact Like.string _
            | _ => exact Reads.pure Like.undefined
        | _ => exact Reads.pure Like.undefined

/-! ## Comparisons -/

theorem strictEquals_method_left (m : BoundMethod) (v : Value) :
    (Value.function (.method m)).strictEquals v = false := by
  cases v <;> rfl

theorem strictEquals_method_right (m : BoundMethod) (v : Value) :
    v.strictEquals (Value.function (.method m)) = false := by
  cases v with
  | function f => cases f <;> rfl
  | _ => rfl

/-- What refers to a cell does not equal what refers to none. -/
theorem strictEquals_atom (hv : v.cell? = none) (hw : w.cell? ≠ none) :
    v.strictEquals w = false ∧ w.strictEquals v = false := by
  cases w with
  | array a => cases v <;> first | exact ⟨rfl, rfl⟩ | cases hv
  | object o => cases v <;> first | exact ⟨rfl, rfl⟩ | cases hv
  | function f =>
      cases f with
      | method m => exact ⟨strictEquals_method_right m v, strictEquals_method_left m v⟩
      | _ => exact absurd rfl hw
  | _ => exact absurd rfl hw

theorem strictEquals_eq (h : Heap T β S) (hvw : v.Like β w) (hvw' : v'.Like β w') :
    w.strictEquals w' = v.strictEquals v' := by
  have hcells : ∀ {x x' z z' : Cell}, β x z → β x' z' → (z = z' ↔ x = x') :=
    fun hxz hxz' => ⟨fun hz => h.injective hxz (hz ▸ hxz'), fun hx => h.functional hxz (hx ▸ hxz')⟩
  -- only two arrays and two objects are compared by their cells
  cases hvw with
  | atom v hcell =>
      cases hvw' with
      | atom => rfl
      | array => rw [(strictEquals_atom hcell (by simp [cell?])).1, (strictEquals_atom hcell (by simp [cell?])).1]
      | object => rw [(strictEquals_atom hcell (by simp [cell?])).1, (strictEquals_atom hcell (by simp [cell?])).1]
      | method => rw [strictEquals_method_right, strictEquals_method_right]
      | callback => rw [strictEquals_method_right, strictEquals_method_right]
  | @array a b hpair =>
      cases hvw' with
      | @array a' b' hpair' =>
          have hiff := hcells hpair hpair'
          cases a; cases b; cases a'; cases b'
          rw [Bool.eq_iff_iff]
          simpa [strictEquals] using hiff
      | atom _ hcell => rw [(strictEquals_atom hcell (by simp [cell?])).2, (strictEquals_atom hcell (by simp [cell?])).2]
      | _ => rfl
  | @object a b hpair =>
      cases hvw' with
      | @object a' b' hpair' =>
          have hiff := hcells hpair hpair'
          cases a; cases b; cases a'; cases b'
          rw [Bool.eq_iff_iff]
          simpa [strictEquals] using hiff
      | atom _ hcell => rw [(strictEquals_atom hcell (by simp [cell?])).2, (strictEquals_atom hcell (by simp [cell?])).2]
      | _ => rfl
  | method => rw [strictEquals_method_left, strictEquals_method_left]
  | callback => rw [strictEquals_method_left, strictEquals_method_left]

theorem convertingEquals_eq (h : Heap T β S) (hvw : v.Like β w) (hvw' : v'.Like β w') :
    w.convertingEquals w' = v.convertingEquals v' := by
  have hstrict := strictEquals_eq h hvw hvw'
  cases hvw with
  | atom v hcell =>
      cases hvw' with
      | atom => rfl
      | _ => cases v <;> exact hstrict
  | _ => exact hstrict

/-- What takes part in a comparison with conversion: an array or object by its text, if the other value
is a number or text. -/
def comparand (v other : Value) : Act Value :=
  if v.isCompound then
    match other with
    | .number _ | .string _ => do return .string (← v.toText)
    | _ => return v
  else return v

theorem looseEquals_eq (a b : Value) : a.looseEquals b =
    if a.isNullish && b.isNullish then return true
    else if a.isNullish || b.isNullish then return false
    else do
      let x ← a.withoutBool.comparand b.withoutBool
      let y ← b.withoutBool.comparand a.withoutBool
      return x.convertingEquals y := by
  cases a <;> cases b <;> simp [looseEquals, comparand, withoutBool, isNullish, isCompound]

theorem withoutBool_like (hvw : v.Like β w) : v.withoutBool.Like β w.withoutBool := by
  cases hvw with
  | atom v hcell hpromise =>
      cases v with
      | bool b => exact Like.number _
      | _ => exact .atom _ hcell hpromise
  | array hpair => exact .array hpair
  | object hpair => exact .object hpair
  | method m hpair => exact .method m hpair
  | callback m hpair => exact .callback m hpair

theorem comparand_reads (h : Heap T β S) (hvw : v.Like β w) (hvw' : v'.Like β w') :
    Reads T S (v.comparand v') (w.comparand w') (Like β) := by
  have hcompound : w.isCompound = v.isCompound := by cases hvw <;> rfl
  have htext : Reads T S (do return Value.string (← v.toText)) (do return Value.string (← w.toText))
      (Like β) :=
    (toText_reads h hvw).bind fun t _ ht => ht ▸ Reads.pure (Like.string t)
  unfold comparand
  rw [hcompound]
  by_cases hv : v.isCompound
  · rw [if_pos hv, if_pos hv]
    cases hvw' with
    | atom v' =>
        cases v' with
        | number x => exact htext
        | string t => exact htext
        | _ => exact Reads.pure hvw
    | _ => exact Reads.pure hvw
  · rw [if_neg hv, if_neg hv]
    exact Reads.pure hvw

theorem looseEquals_reads (h : Heap T β S) (hvw : v.Like β w) (hvw' : v'.Like β w') :
    Reads T S (v.looseEquals v') (w.looseEquals w') Eq := by
  rw [looseEquals_eq, looseEquals_eq, hvw.isNullish_eq, hvw'.isNullish_eq]
  split
  · exact Reads.pure rfl
  split
  · exact Reads.pure rfl
  have hv := withoutBool_like hvw
  have hv' := withoutBool_like hvw'
  refine (comparand_reads h hv hv').bind fun x x' hx => ?_
  refine (comparand_reads h hv' hv).bind fun y y' hy => ?_
  exact Reads.pure (convertingEquals_eq h hx hy).symm

theorem primitive_reads (h : Heap T β S) (hvw : v.Like β w) :
    Reads T S v.primitive w.primitive (Like β) := by
  have htext : Reads T S (do return Value.string (← v.toText)) (do return Value.string (← w.toText))
      (Like β) :=
    (toText_reads h hvw).bind fun t _ ht => ht ▸ Reads.pure (Like.string t)
  cases hvw with
  | atom v hcell hpromise =>
      cases v with
      | array a => cases hcell
      | object o => cases hcell
      | promise p => cases hpromise
      | function f => exact htext
      | _ => exact Reads.pure (.atom _ rfl rfl)
  | _ => exact htext

theorem order?_reads (h : Heap T β S) (hvw : v.Like β w) (hvw' : v'.Like β w') :
    Reads T S (v.order? v') (w.order? w') Eq := by
  have hnumbers : ∀ f : Float → Float → Option Ordering, Reads T S
      (do let x ← v.toNumber; let y ← v'.toNumber; return f x y)
      (do let x ← w.toNumber; let y ← w'.toNumber; return f x y) Eq := by
    intro f
    refine (toNumber_reads h hvw).bind fun x _ hx => ?_
    refine (toNumber_reads h hvw').bind fun y _ hy => ?_
    exact hx ▸ hy ▸ Reads.pure rfl
  cases hvw with
  | atom v =>
      cases v with
      | string t =>
          cases hvw' with
          | atom v' =>
              cases v' with
              | string t' => exact Reads.pure rfl
              | _ => exact hnumbers _
          | _ => exact hnumbers _
      | _ => exact hnumbers _
  | _ => exact hnumbers _

end Value

/-! ## Operators -/

namespace BinaryOp

open Value

theorem onNumbers_reads (f : Float → Float → Float) (h : Heap T β S) (hvw : v.Like β w)
    (hvw' : v'.Like β w') : Reads T S (onNumbers f v v') (onNumbers f w w') (Like β) := by
  refine (toNumber_reads h hvw).bind fun x _ hx => ?_
  refine (toNumber_reads h hvw').bind fun y _ hy => ?_
  exact hx ▸ hy ▸ Reads.pure (Like.number _)

theorem onIntegers_reads (f : Int32 → Int32 → Int32) (h : Heap T β S) (hvw : v.Like β w)
    (hvw' : v'.Like β w') : Reads T S (onIntegers f v v') (onIntegers f w w') (Like β) := by
  refine (toInt32_reads h hvw).bind fun x _ hx => ?_
  refine (toInt32_reads h hvw').bind fun y _ hy => ?_
  exact hx ▸ hy ▸ Reads.pure (Like.number _)

theorem sum_reads (h : Heap T β S) (hvw : v.Like β w) (hvw' : v'.Like β w') :
    Reads T S (sum v v') (sum w w') (Like β) := by
  refine (primitive_reads h hvw).bind fun l l' hl => ?_
  refine (primitive_reads h hvw').bind fun r r' hr => ?_
  have hleft : ∀ t, Reads T S (do return Value.string (t ++ (← r.toText)))
      (do return Value.string (t ++ (← r'.toText))) (Like β) := fun t =>
    (toText_reads h hr).bind fun t' _ ht => ht ▸ Reads.pure (Like.string _)
  have hright : ∀ t, Reads T S (do return Value.string ((← l.toText) ++ t))
      (do return Value.string ((← l'.toText) ++ t)) (Like β) := fun t =>
    (toText_reads h hl).bind fun t' _ ht => ht ▸ Reads.pure (Like.string _)
  have hnumbers : Reads T S (do return Value.number ((← l.toNumber) + (← r.toNumber)))
      (do return Value.number ((← l'.toNumber) + (← r'.toNumber))) (Like β) :=
    onNumbers_reads (· + ·) h hl hr
  cases hl with
  | atom l =>
      cases l with
      | string t => exact hleft t
      | _ =>
          cases hr with
          | atom r =>
              cases r with
              | string t => exact hright t
              | _ => exact hnumbers
          | _ => exact hnumbers
  | _ =>
      cases hr with
      | atom r =>
          cases r with
          | string t => exact hright t
          | _ => exact hnumbers
      | _ => exact hnumbers

theorem search_reads (h : Heap T β S) (hvw : v.Like β w) (hvw' : v'.Like β w') :
    Reads T S (search v v') (search w w') (Like β) := by
  have hfault : Reads T S
      (do let key ← v.toKey; Act.typeFault (.searchOperand key (← v'.toText)) : Act Value)
      (do let key ← w.toKey; Act.typeFault (.searchOperand key (← w'.toText)) : Act Value) (Like β) :=
    (toText_reads h hvw).bind fun _ _ _ => (toText_reads h hvw').bind fun _ _ _ => Reads.raise
  cases hvw' with
  | @object a b hpair =>
      refine (toText_reads h hvw).bind fun key _ hkey => Reads.get_bind ?_
      subst hkey
      rw [(lookup_like (h.object_like hpair) key).2]
      exact Reads.pure (Like.bool _)
  | @array a b hpair =>
      refine (toText_reads h hvw).bind fun key _ hkey => Reads.get_bind ?_
      subst hkey
      have hsize : (S.array b).size = (T.array a).size := by
        simpa using (h.array_like hpair).length_eq.symm
      show Reads T S (pure (Value.bool (key == "length" || (arrayIndex? key).any (· < (T.array a).size))))
        (pure (Value.bool (key == "length" || (arrayIndex? key).any (· < (S.array b).size)))) _
      rw [hsize]
      exact Reads.pure (Like.bool _)
  | atom v' hcell =>
      cases v' with
      | array a => cases hcell
      | object o => cases hcell
      | _ => exact hfault
  | _ => exact hfault

theorem apply_reads (op : BinaryOp) (h : Heap T β S) (hvw : v.Like β w) (hvw' : v'.Like β w') :
    Reads T S (op.apply v v') (op.apply w w') (Like β) := by
  have horder : ∀ test : Ordering → Bool, Reads T S
      (do let l ← v.primitive; let r ← v'.primitive; return Value.bool ((← l.order? r).any test))
      (do let l ← w.primitive; let r ← w'.primitive; return Value.bool ((← l.order? r).any test))
      (Like β) := by
    intro test
    refine (primitive_reads h hvw).bind fun l l' hl => ?_
    refine (primitive_reads h hvw').bind fun r r' hr => ?_
    exact (order?_reads h hl hr).bind fun o _ ho => ho ▸ Reads.pure (Like.bool _)
  cases op with
  | add => exact sum_reads h hvw hvw'
  | sub => exact onNumbers_reads _ h hvw hvw'
  | mul => exact onNumbers_reads _ h hvw hvw'
  | div => exact onNumbers_reads _ h hvw hvw'
  | mod => exact onNumbers_reads _ h hvw hvw'
  | exp => exact onNumbers_reads _ h hvw hvw'
  | eq => exact (looseEquals_reads h hvw hvw').bind fun _ _ hb => hb ▸ Reads.pure (Like.bool _)
  | notEq => exact (looseEquals_reads h hvw hvw').bind fun _ _ hb => hb ▸ Reads.pure (Like.bool _)
  | strictEq => exact Reads.pure (strictEquals_eq h hvw hvw' ▸ Like.bool _)
  | strictNotEq => exact Reads.pure (strictEquals_eq h hvw hvw' ▸ Like.bool _)
  | less => exact horder _
  | greater => exact horder _
  | lessEq => exact horder _
  | greaterEq => exact horder _
  | isIn => exact search_reads h hvw hvw'
  | instanceOf => exact Reads.raise
  | bitAnd => exact onIntegers_reads _ h hvw hvw'
  | bitOr => exact onIntegers_reads _ h hvw hvw'
  | bitXor => exact onIntegers_reads _ h hvw hvw'
  | shl => exact onIntegers_reads _ h hvw hvw'
  | shr => exact onIntegers_reads _ h hvw hvw'
  | ushr =>
      refine (toInt32_reads h hvw').bind fun y _ hy => ?_
      refine (toInt32_reads h hvw).bind fun x _ hx => ?_
      exact hx ▸ hy ▸ Reads.pure (Like.number _)

end BinaryOp

theorem UnaryOp.apply_reads (op : UnaryOp) (h : Heap T β S) (hvw : v.Like β w) :
    Reads T S (op.apply v) (op.apply w) (Value.Like β) := by
  cases op with
  | not => exact Reads.pure (hvw.isTruthy_eq ▸ Value.Like.bool _)
  | neg => exact (Value.toNumber_reads h hvw).bind fun _ _ hx => hx ▸ Reads.pure (Value.Like.number _)
  | plus => exact (Value.toNumber_reads h hvw).bind fun _ _ hx => hx ▸ Reads.pure (Value.Like.number _)
  | bitNot => exact (Value.toInt32_reads h hvw).bind fun _ _ hx => hx ▸ Reads.pure (Value.Like.number _)
  | typeOf => exact Reads.pure (hvw.typeName_eq ▸ Value.Like.string _)
  | void => exact Reads.pure Value.Like.undefined
  | delete => exact Reads.pure (Value.Like.bool _)

theorem LogicalOp.isDecided_eq (op : LogicalOp) (hvw : v.Like β w) : op.isDecided w = op.isDecided v := by
  cases op <;> simp only [LogicalOp.isDecided, hvw.isTruthy_eq, hvw.isNullish_eq]

end FieldScript
