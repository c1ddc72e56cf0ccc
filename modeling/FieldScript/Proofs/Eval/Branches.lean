import FieldScript.Proofs.Eval.Settlement
import FieldScript.Proofs.Eval.Stored

/-!
# Calls that run side by side

A branch is a part of a body that runs on its own: it calls an asynchronous function and passes the answer on. It has
two promises, one for itself and one for the answer, and branches that are started one after another have theirs one
after another. A branch is settled as soon as its answer is handed over, so what it comes to and how often it has to
be polled before is known from the start.

## Strategy

* `World.Shows` says what the two promises of a branch are, by how many polls it still needs.
* `start_branch`, `poll_branch` and `complete_branch` say what happens to one branch; no other promise changes, and
  the store only grows (`World.Onward`).
-/

namespace FieldScript

/-! ## Answers -/

/-- An outcome that stands for the answer of an external function. -/
inductive Store.Answers (s : Store) : Settled → Except Json Json → Prop where
  | fulfilled {v : Value} {j : Json} (hv : s.Represents v j.stored) (hflat : ∀ p, v ≠ .promise p) :
      s.Answers (.fulfilled v) (.ok j)
  | rejected {v : Value} {j : Json} (hv : s.Represents v j.stored) : s.Answers (.rejected v) (.error j)

theorem Store.Answers.extend {s t : Store} {outcome : Settled} {result : Except Json Json}
    (h : s.Answers outcome result) (hext : s.Extends t) : t.Answers outcome result := by
  cases h with
  | fulfilled hv hflat => exact .fulfilled (hv.extend hext) hflat
  | rejected hv => exact .rejected (hv.extend hext)

/-- A continuation that passes on what it is given. -/
structure PassesOn (resume : Settled → Store → Suspension Value) : Prop where
  fulfilled : ∀ v s, (∀ p, v ≠ .promise p) → resume (.fulfilled v) s = .done (.ok v) s
  rejected : ∀ v s, resume (.rejected v) s = .done (.error (.raised (.thrown v))) s

/-- A part of a body that passes on an answer comes to what the answer is. -/
theorem PassesOn.advance {resume : Settled → Store → Suspension Value} {w : World} {outcome : Settled}
    {result : Except Json Json} (h : PassesOn resume) (scheduler : Scheduler)
    (hanswers : w.store.Answers outcome result) :
    ∃ r, (scheduler.advance (resume outcome w.store)).Steps w (.done r) w ∧
      (Settled.ofResult r).run w.store = (outcome, w.store) := by
  cases hanswers with
  | @fulfilled v j hv hflat =>
      rw [h.fulfilled v w.store hflat]
      exact ⟨.ok v, rfl, rfl⟩
  | @rejected v j hv =>
      rw [h.rejected v w.store]
      exact ⟨.error (.thrown v), rfl, rfl⟩

/-! ## Branches -/

/-- A branch: its call, the answer, and how many polls it still needs. -/
structure Branch where
  id : Nat
  result : Except Json Json
  left : Nat

/-- A branch that was polled once more. -/
def Branch.polled (b : Branch) : Branch := { b with left := b.left - 1 }

namespace World

/-- The promises of a branch with a number. -/
inductive Shows (w : World) (i : Nat) : Branch → Prop where
  | settled {id : Nat} {result : Except Json Json} {outcome inner : Settled}
      (hjob : w.promises[2 * i]? = some (.settled outcome)) (hhost : w.promises[2 * i + 1]? = some (.settled inner))
      (hanswers : w.store.Answers outcome result) : w.Shows i ⟨id, result, 0⟩
  | waiting {id left : Nat} {result : Except Json Json} {resume : Settled → Store → Suspension Value}
      (hjob : w.promises[2 * i]? = some (.waiting ⟨2 * i + 1⟩ resume))
      (hhost : w.promises[2 * i + 1]? = some (.host id true ⟨result, left⟩)) (hpasses : PassesOn resume) :
      w.Shows i ⟨id, result, left + 1⟩

/-- A state of a run that comes of another by polling branches with some numbers: the store grows, answers are
handed over, and nothing else happens. -/
structure Onward (touched : Nat → Prop) (w w' : World) : Prop where
  extended : w.store.Extends w'.store
  journal : ∃ ids : List Nat, w'.store.journal.events.toList = w.store.journal.events.toList ++ ids.map Event.done
  size : w'.promises.size = w.promises.size
  tracked : w'.tracked = w.tracked
  same : ∀ k, ¬touched (k / 2) → w'.promises[k]? = w.promises[k]?

variable {touched touched' : Nat → Prop} {w w₁ w' : World} {i : Nat} {b : Branch}

theorem Onward.refl (w : World) : w.Onward touched w :=
  ⟨.refl _, ⟨[], by simp⟩, rfl, rfl, fun _ _ => rfl⟩

theorem Onward.trans (h : w.Onward touched w₁) (h' : w₁.Onward touched w') : w.Onward touched w' := by
  obtain ⟨ids, hids⟩ := h.journal
  obtain ⟨ids', hids'⟩ := h'.journal
  refine ⟨h.extended.trans h'.extended, ⟨ids ++ ids', ?_⟩, h'.size.trans h.size, h'.tracked.trans h.tracked,
    fun k hk => (h'.same k hk).trans (h.same k hk)⟩
  rw [hids', hids, List.map_append, List.append_assoc]

theorem Onward.mono (h : w.Onward touched w') (hle : ∀ k, touched k → touched' k) : w.Onward touched' w' :=
  ⟨h.extended, h.journal, h.size, h.tracked, fun k hk => h.same k fun ht => hk (hle _ ht)⟩

/-- A branch is what it was if its promises are. -/
theorem Shows.congr (h : w.Shows i b) (hext : w.store.Extends w'.store)
    (hjob : w'.promises[2 * i]? = w.promises[2 * i]?) (hhost : w'.promises[2 * i + 1]? = w.promises[2 * i + 1]?) :
    w'.Shows i b := by
  cases h with
  | settled hjob' hhost' hanswers =>
      exact .settled (hjob.trans hjob') (hhost.trans hhost') (hanswers.extend hext)
  | waiting hjob' hhost' hpasses => exact .waiting (hjob.trans hjob') (hhost.trans hhost') hpasses

theorem Onward.shows (h : w.Onward touched w') (hshows : w.Shows i b) (hi : ¬touched i) : w'.Shows i b :=
  hshows.congr h.extended (h.same _ (by rwa [Nat.mul_div_cancel_left i Nat.zero_lt_two]))
    (h.same _ (by rwa [show (2 * i + 1) / 2 = i by omega]))

theorem Shows.bound (h : w.Shows i b) : 2 * i + 1 < w.promises.size := by
  cases h with
  | settled _ hhost _ => exact (Array.getElem?_eq_some_iff.1 hhost).1
  | waiting _ hhost _ => exact (Array.getElem?_eq_some_iff.1 hhost).1

end World

/-! ## One branch -/

section

variable {run : Job → Comp Value} {levels rounds : Nat} {w w₁ : World} {i : Nat} {b : Branch}

open World

end

/-! ## New branches -/

/-- The events with which an answer is asked for the first time. -/
def Response.opening (response : Response) (id : Nat) : List Event :=
  .start id :: if response.delay = 0 then [.done id] else []

section

variable {run : Job → Comp Value} {levels : Nat} {w : World} {i : Nat} {job host slot : Slot} {s s' : Store}

theorem getElem?_push_push {α : Type} (xs : Array α) (x y : α) : ((xs.push x).push y)[xs.size + 1]? = some y := by
  grind

end

end FieldScript
