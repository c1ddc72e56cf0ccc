import FieldScript.Proofs.Settle.Awaited

/-!
# Trees that may move between scopes

Two walks keep scopes of their own: settling, over the body as it was written, and rendering, over the
settled tree, in which calls stand in other places. A call can only go wrong if settling took its name
for a local one and rendering does not. So the one thing to know of the two scopes is that the names of
the first are among the names of the second.

## Strategy

Every statement about a visited tree is made for *all* scopes that have the names which were local when
the tree was visited (`Locals.Sub`). A tree may then be moved to any place with at least these names,
and temporaries that come into scope on the way do no harm.

* `Sound`: what visiting an expression leaves. The new declarations are temporaries that are awaited
  wherever the expression is (`Front`), or there are none of them (`Nothing`).
* `Flow`: what visiting a statement leaves, in the form "whatever may follow behind the new names may
  follow these statements". It composes along a block.
-/

namespace FieldScript

/-! ## Names of scopes -/

namespace Locals

/-- Every name of one scope is a name of another. -/
def Sub (l g : Locals) : Prop := ∀ name, l.contains name = true → g.contains name = true

theorem contains_bind (l : Locals) (name key : String) (mark : Bool) :
    (l.bind name mark).contains key = (key == name || l.contains key) := by
  unfold contains
  rw [find?_bind]
  by_cases h : key = name <;> simp [h]

theorem contains_declareAll (l : Locals) (names : List String) (key : String) :
    (l.declareAll names).contains key = (names.contains key || l.contains key) := by
  induction names generalizing l with
  | nil => simp [declareAll]
  | cons name more ih =>
      have hstep : l.declareAll (name :: more) = (l.bind name false).declareAll more := rfl
      rw [hstep, ih, contains_bind, List.contains_cons]
      cases more.contains key <;> cases (key == name) <;> simp

@[simp] theorem contains_push (l : Locals) (key : String) : l.push.contains key = l.contains key := rfl

theorem pop_bind (l : Locals) (name : String) (mark : Bool) : (l.bind name mark).pop = l.pop := by
  obtain ⟨scopes⟩ := l
  cases scopes <;> rfl

theorem pop_declareAll (l : Locals) (names : List String) : (l.declareAll names).pop = l.pop := by
  induction names generalizing l with
  | nil => rfl
  | cons name more ih => exact (ih (l.bind name false)).trans (pop_bind l name false)

theorem declareAll_append (l : Locals) (xs ys : List String) :
    l.declareAll (xs ++ ys) = (l.declareAll xs).declareAll ys := List.foldl_append

namespace Sub

variable {l g k : Locals}

theorem refl (l : Locals) : l.Sub l := fun _ h => h

theorem trans (h : l.Sub g) (h' : g.Sub k) : l.Sub k := fun name hname => h' name (h name hname)

theorem push_left (h : l.Sub g) : l.push.Sub g := fun name hname => h name (by simpa using hname)

theorem push_right (h : l.Sub g) : l.Sub g.push := fun name hname => by simpa using h name hname

theorem declareAll_right (h : l.Sub g) (names : List String) : l.Sub (g.declareAll names) := by
  intro name hname
  rw [contains_declareAll, h name hname, Bool.or_true]

theorem declareAll (h : l.Sub g) (names : List String) :
    (l.declareAll names).Sub (g.declareAll names) := by
  intro name hname
  rw [contains_declareAll, Bool.or_eq_true] at hname ⊢
  exact hname.imp id (h name)

theorem declareAll_comm (l : Locals) (xs ys : List String) :
    ((l.declareAll xs).declareAll ys).Sub ((l.declareAll ys).declareAll xs) := by
  intro name hname
  rw [contains_declareAll, contains_declareAll] at hname ⊢
  rw [Bool.or_left_comm]
  exact hname

end Sub
end Locals

namespace Awaited

open Settle (Walk State awaited thunk returning joinAll startsAsync)
open Settle.Walk (Ensures)

variable {v : View} {s s' : State} {l g : Locals}

/-- The same surroundings as settling sees them. -/
def View.walk (v : View) : Settle.Outside := ⟨v.out.capabilities, v.out.args⟩

/-- What rendering takes for an asynchronous capability, settling does, if it sees no more names. -/
theorem startsAsync_of_callsAsync {callee : Expr} (hsub : l.Sub g)
    (h : Render.callsAsync v.out g callee = true) : startsAsync v.walk l callee = true := by
  cases callee with
  | identifier name span =>
      simp only [Render.callsAsync, Bool.and_eq_true, beq_iff_eq] at h
      obtain ⟨hmeaning, hasync⟩ := h
      have hfree : g.contains name = false := by
        cases hg : g.contains name with
        | false => rfl
        | true => simp [Render.meaning, hg] at hmeaning
      have hfree' : l.contains name = false := by
        cases hl : l.contains name with
        | false => rfl
        | true => simp [hsub name hl] at hfree
      simp [startsAsync, View.walk, hasync, hfree']
  | _ => simp [Render.callsAsync] at h

/-! ## Temporaries -/

theorem isDigit_repr (n : Nat) : (Nat.repr n).toList.all Char.isDigit = true := by
  simp only [Nat.repr, String.toList_ofList, List.all_eq_true]
  intro c hc
  exact Nat.isDigit_of_mem_toDigits (by omega) (by omega) hc

theorem isTemporaryName_temporaryName (n : Nat) :
    isTemporaryName (Settle.temporaryName n) = true := by
  have hlist : (Settle.temporaryName n).toList = '_' :: (Nat.repr n).toList := by
    simp [Settle.temporaryName]
  have hne : (Nat.repr n).toList.isEmpty = false := by
    simp [Nat.repr, Nat.toDigits_ne_nil]
  simp only [isTemporaryName, hlist, hne, isDigit_repr]
  rfl

/-! ## Lists of statements -/

theorem sub_behind (g : Locals) (stmt : Stmt) : g.Sub (behind g stmt) := by
  fun_induction behind g stmt with
  | case1 g kind ds span span' => exact (Locals.Sub.refl g).declareAll_right _
  | case2 g test yes span ih => exact ih
  | case3 g test yes no span ih ih' => exact ih.trans ih'
  | case4 g test body span ih => exact ih
  | case5 g body test span ih => exact ih
  | case6 => exact Locals.Sub.refl _

theorem sub_sight (g : Locals) (stmt : Stmt) (more : List Stmt) : g.Sub (v.sight g stmt more) := by
  unfold View.sight
  split
  · exact (Locals.Sub.refl g).declareAll_right _
  · exact Locals.Sub.refl g

/-- Statements that start with the names of `l` and leave those of `l'` to what follows. -/
def Flow (v : View) (l : Locals) (outs : List Stmt) (l' : Locals) : Prop :=
  ∀ g, l.Sub g → ∀ rest, (∀ g', l'.Sub g' → statements v g' rest = true) →
    statements v g (outs ++ rest) = true

/-- A declaration of a temporary that is awaited wherever the names of `l` are. -/
def Front (v : View) (l : Locals) (d : Stmt) : Prop :=
  d.isTemporary = true ∧ ∀ g, l.Sub g → statement v g d = true

theorem Front.mono {d : Stmt} (h : Front v l d) (hl : l.Sub g) : Front v g d :=
  ⟨h.1, fun k hk => h.2 k (hl.trans hk)⟩

/-- No declaration at all. -/
def Nothing (_ : Locals) (_ : Stmt) : Prop := False

namespace Flow

variable {m k : Locals} {xs ys : List Stmt}

theorem nil (h : m.Sub l) : Flow v l [] m := fun _ hg _ hrest => hrest _ (h.trans hg)

theorem append (hx : Flow v l xs m) (hy : Flow v m ys k) : Flow v l (xs ++ ys) k := by
  intro g hg rest hrest
  rw [List.append_assoc]
  exact hx g hg _ fun g' hg' => hy g' hg' rest hrest

theorem mono (hx : Flow v l xs m) (hl : l.Sub g) (hm : k.Sub m) : Flow v g xs k :=
  fun _ hg rest hrest => hx _ (hl.trans hg) rest fun g' hg' => hrest g' (hm.trans hg')

theorem single {stmt : Stmt} (hstmt : ∀ g, l.Sub g → statement v g stmt = true)
    (hnames : ∀ g, l.Sub g → m.Sub (behind g stmt)) : Flow v l [stmt] m := by
  intro g hg rest hrest
  simp only [List.singleton_append, statements, Bool.and_eq_true]
  exact ⟨hstmt _ (hg.trans (sub_sight g stmt rest)), hrest _ (hnames g hg)⟩

theorem fronts (h : ∀ d ∈ xs, Front v l d) : Flow v l xs l := by
  induction xs with
  | nil => exact nil (Locals.Sub.refl l)
  | cons d more ih =>
      have hd : Flow v l [d] l :=
        single (h d List.mem_cons_self).2 fun g hg => hg.trans (sub_behind g d)
      exact hd.append (ih fun d' hd' => h d' (List.mem_cons_of_mem d hd'))

/-- Statements with nothing behind them. -/
theorem statements_eq (h : Flow v l xs m) (hg : l.Sub g) : statements v g xs = true := by
  simpa using h g hg [] fun _ _ => rfl

end Flow

/-! ## Steps of the walk -/

variable {α β : Type} {F : Locals → Stmt → Prop}

/-- What a step leaves that keeps the scope: the new declarations in front of the statement at hand,
and what holds of its result in every scope with the names that were local. -/
structure Visits (F : Locals → Stmt → Prop) (s s' : State) (ok : Locals → Prop) : Prop where
  locals : s'.locals = s.locals
  hoisted : ∃ new, s'.hoisted = s.hoisted ++ new ∧ ∀ d ∈ new, F s.locals d
  holds : ∀ g, s.locals.Sub g → ok g

/-- A step of which the above is known wherever it starts. -/
def Sound (v : View) (F : Locals → Stmt → Prop) (step : Walk α) (ok : α → Locals → Prop) : Prop :=
  ∀ s, Ensures step v.walk s fun a s' => Visits F s s' (ok a)

namespace Visits

variable {s₁ : State} {ok ok' : Locals → Prop}

theorem refl (h : ∀ g, s.locals.Sub g → ok g) : Visits F s s ok :=
  ⟨rfl, ⟨[], by simp⟩, h⟩

theorem trans (h : Visits F s s₁ ok) (h' : Visits F s₁ s' fun g => ok g → ok' g) :
    Visits F s s' ok' := by
  obtain ⟨new, hnew, hF⟩ := h.hoisted
  obtain ⟨new', hnew', hF'⟩ := h'.hoisted
  refine ⟨h'.locals.trans h.locals, ⟨new ++ new', ?_, ?_⟩, ?_⟩
  · rw [hnew', hnew, List.append_assoc]
  · intro d hd
    rcases List.mem_append.1 hd with hd | hd
    · exact hF d hd
    · exact h.locals ▸ hF' d hd
  · intro g hg
    exact h'.holds g (h.locals ▸ hg) (h.holds g hg)

theorem hoisted_eq (h : Visits Nothing s s' ok) : s'.hoisted = s.hoisted := by
  obtain ⟨new, hnew, hnone⟩ := h.hoisted
  cases new with
  | nil => simpa using hnew
  | cons d more => exact (hnone d List.mem_cons_self).elim

end Visits

namespace Sound

variable {x : Walk α} {f : α → Walk β} {ok ok' : α → Locals → Prop}

theorem pure {a : α} (h : ∀ g, ok a g) : Sound v F (Pure.pure a) ok :=
  fun _ => Visits.refl fun g _ => h g

theorem bind {ok' : β → Locals → Prop} (hx : Sound v F x ok)
    (hf : ∀ a, Sound v F (f a) fun b g => ok a g → ok' b g) : Sound v F (x >>= f) ok' := by
  intro s
  exact Ensures.bind (hx s) fun a s' hmid => (hf a s').mono fun b s'' hlast => hmid.trans hlast

theorem ite {c : Prop} [Decidable c] {y : Walk α} (hx : c → Sound v F x ok)
    (hy : ¬c → Sound v F y ok) : Sound v F (if c then x else y) ok :=
  fun s => Ensures.ite (fun hc => hx hc s) fun hc => hy hc s

theorem weaken {F' : Locals → Stmt → Prop} (hx : Sound v F x ok) (h : ∀ l d, F l d → F' l d) :
    Sound v F' x ok := by
  intro s
  refine (hx s).mono fun a s' hv => ⟨hv.locals, ?_, hv.holds⟩
  obtain ⟨new, hnew, hF⟩ := hv.hoisted
  exact ⟨new, hnew, fun d hd => h _ d (hF d hd)⟩

/-- What holds in every large enough scope holds in every larger one. -/
theorem upward (hx : Sound v F x ok) : Sound v F x fun a g => ∀ g', g.Sub g' → ok a g' :=
  fun s => (hx s).mono fun _ _ hv =>
    ⟨hv.locals, hv.hoisted, fun _ hg g' hg' => hv.holds g' (hg.trans hg')⟩

/-- A fact about the result that has nothing to do with scopes. -/
theorem and_ensures {P : α → Prop} (hx : Sound v F x ok)
    (h : ∀ s, Ensures x v.walk s fun a _ => P a) : Sound v F x fun a g => ok a g ∧ P a :=
  fun s => ⟨(hx s).locals, (hx s).hoisted, fun g hg => ⟨(hx s).holds g hg, h s⟩⟩

theorem markAwait : Sound v F Settle.markAwait fun _ _ => True :=
  fun _ => ⟨rfl, ⟨[], (List.append_nil _).symm, by simp⟩, fun _ _ => trivial⟩

end Sound

end Awaited
end FieldScript
