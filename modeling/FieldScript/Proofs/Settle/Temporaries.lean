import FieldScript.Proofs.Settle.Conservation

/-!
# Temporaries in their scopes

A body that has no names like `_0` leaves these to temporaries. The leaves of a settled body tell how often a temporary
is declared and referred to: once for its insertion. What a settled body mentions out of scope is known from the body,
and so are its variables, so that no temporary is among them.

* `ScopedTemporaries`: every temporary is declared once and is used behind its declaration only.
* `settle_scopes_temporaries`: settled bodies are of this kind.
-/

namespace FieldScript

open Settle (temporaryName temporaryName_injective)

/-! ## Leaves with the name of a temporary -/

namespace Leaf

def declares (name : String) : Leaf → Bool
  | .declared _ x => x == name
  | _ => false

def declaresConstant (name : String) : Leaf → Bool
  | .declared constant x => constant && x == name
  | _ => false

/-- A kind of leaves with a given name. -/
def Bears (kind : Leaf → Bool) (name : String) : Prop := ∀ leaf, kind leaf = true → leaf.name? = some name

theorem declares_bears (name : String) : Bears (declares name) name := by
  intro leaf h
  cases leaf with
  | declared constant x => exact congrArg some (eq_of_beq h)
  | _ => cases h

theorem declaresConstant_bears (name : String) : Bears (declaresConstant name) name := by
  intro leaf h
  cases leaf with
  | declared constant x =>
      simp only [declaresConstant, Bool.and_eq_true] at h
      exact congrArg some (eq_of_beq h.2)
  | _ => cases h

theorem refersTo_bears (name : String) : Bears (refersTo name) name := by
  intro leaf h
  cases leaf with
  | reference x => exact congrArg some (eq_of_beq h)
  | _ => cases h

/-- Leaves of which none has a name like a temporary. -/
theorem Bears.count_eq_zero {kind : Leaf → Bool} {n : Nat} (h : Bears kind (temporaryName n)) {c : Census}
    (hplain : ∀ leaf ∈ c, leaf.isTemporary = false) : c.count kind = 0 := by
  refine (Census.count_eq_zero kind c).2 fun leaf hleaf => Bool.eq_false_iff.2 fun hkind => ?_
  have hplain := hplain leaf hleaf
  rw [isTemporary, h leaf hkind, Option.any_some, Awaited.isTemporaryName_temporaryName] at hplain
  cases hplain

/-- What could be said about a name is said by leaves with that name. -/
theorem isTemporary_of_mentions {leaf : Leaf} {m : Mention} {n : Nat} (hm : m ∈ leaf.mentions)
    (hname : m = .loose (temporaryName n) ∨ m = .variable (temporaryName n)) : leaf.isTemporary = true := by
  cases leaf with
  | declared constant x =>
      obtain rfl := Multiset.mem_singleton.1 hm
      obtain h | h := hname
      · cases h
      · cases h
        exact Awaited.isTemporaryName_temporaryName n
  | reference x =>
      obtain rfl := Multiset.mem_singleton.1 hm
      obtain h | h := hname
      · cases h
        exact Awaited.isTemporaryName_temporaryName n
      · cases h
  | _ => exact absurd hm (Multiset.notMem_zero m)

end Leaf

/-! ## Insertions with temporaries -/

namespace Insertion

variable {kind : Leaf → Bool} {n : Nat} {i : Insertion} {made : List Insertion}

/-- An insertion has no leaves with the name of a temporary of another one. -/
theorem count_leaves_eq_zero (hkind : Leaf.Bears kind (temporaryName n)) (hother : i.temporary? ≠ some n) :
    i.leaves.count kind = 0 := by
  refine (Census.count_eq_zero kind _).2 fun leaf hleaf => Bool.eq_false_iff.2 fun h => ?_
  have hname := hkind leaf h
  have hfixed : ∀ name, isTemporaryName name = false → name ≠ temporaryName n := by
    rintro name hplain rfl
    rw [Awaited.isTemporaryName_temporaryName] at hplain
    cases hplain
  have hpromise := hfixed "Promise" (by decide)
  have hundefined := hfixed "undefined" (by decide)
  have hdistinct : ∀ k, i.temporary? = some k → temporaryName k ≠ temporaryName n := fun k hk heq =>
    hother (hk.trans (congrArg some (temporaryName_injective heq)))
  cases i with
  | hoisted k =>
      have hk := hdistinct k rfl
      simp only [leaves, Multiset.insert_eq_cons, Multiset.mem_cons, Multiset.mem_singleton] at hleaf
      rcases hleaf with rfl | rfl <;> exact hk (Option.some.inj hname)
  | relocated k defaulted =>
      have hk := hdistinct k rfl
      cases defaulted <;>
        simp only [leaves, Multiset.insert_eq_cons, Multiset.mem_add, Multiset.mem_cons, Multiset.mem_singleton,
          Multiset.notMem_zero, or_false, if_true, Bool.false_eq_true, if_false] at hleaf
      · rcases hleaf with rfl | rfl <;> exact hk (Option.some.inj hname)
      · rcases hleaf with (rfl | rfl) | rfl | rfl
        · exact hk (Option.some.inj hname)
        · exact hk (Option.some.inj hname)
        · exact hk (Option.some.inj hname)
        · exact hundefined (Option.some.inj hname)
  | joined span =>
      simp only [leaves, Multiset.insert_eq_cons, Multiset.mem_cons, Multiset.mem_singleton] at hleaf
      rcases hleaf with rfl | rfl | rfl | rfl
      · exact hpromise (Option.some.inj hname)
      · cases hname
      · cases hname
      · cases hname
  | thunk span =>
      obtain rfl := Multiset.mem_singleton.1 hleaf
      cases hname

theorem count_census_cons (i : Insertion) (made : List Insertion) :
    (census (i :: made)).count kind = i.leaves.count kind + (census made).count kind := by
  rw [← List.singleton_append, census_append, census_singleton, Census.count_add]

theorem count_census_eq_zero (hkind : Leaf.Bears kind (temporaryName n)) (h : n ∉ temporaries made) :
    (census made).count kind = 0 := by
  induction made with
  | nil => rfl
  | cons i more ih =>
      have hi : i.temporary? ≠ some n := fun hi => h (List.mem_filterMap.2 ⟨i, List.mem_cons_self, hi⟩)
      have hmore : n ∉ temporaries more := fun hn => by
        obtain ⟨j, hj, hjn⟩ := List.mem_filterMap.1 hn
        exact h (List.mem_filterMap.2 ⟨j, List.mem_cons_of_mem i hj, hjn⟩)
      rw [count_census_cons, count_leaves_eq_zero hkind hi, ih hmore]

/-- The leaves with the name of a temporary are those of its insertion. -/
theorem count_census_eq (hkind : Leaf.Bears kind (temporaryName n)) (hnodup : (temporaries made).Nodup)
    (hi : i ∈ made) (hn : i.temporary? = some n) : (census made).count kind = i.leaves.count kind := by
  induction made with
  | nil => cases hi
  | cons j more ih =>
      rw [count_census_cons]
      cases hj : j.temporary? with
      | none =>
          have hmore : temporaries (j :: more) = temporaries more := List.filterMap_cons_none hj
          have hne : i ≠ j := fun h => by rw [h, hj] at hn; cases hn
          rw [count_leaves_eq_zero hkind (by rw [hj]; exact nofun), zero_add]
          exact ih (hmore ▸ hnodup) ((List.mem_cons.1 hi).resolve_left hne)
      | some k =>
          have hmore : temporaries (j :: more) = k :: temporaries more := List.filterMap_cons_some hj
          rw [hmore, List.nodup_cons] at hnodup
          rcases List.mem_cons.1 hi with rfl | hi
          · obtain rfl : n = k := Option.some.inj (hn.symm.trans hj)
            rw [count_census_eq_zero hkind hnodup.1, add_zero]
          · have hne : n ≠ k := by
              rintro rfl
              exact hnodup.1 (List.mem_filterMap.2 ⟨i, hi, hn⟩)
            rw [count_leaves_eq_zero hkind (by rw [hj]; exact fun h => hne (Option.some.inj h).symm), zero_add]
            exact ih hnodup.2 hi

end Insertion

/-! ## Blocks -/

/-- Statements in which the temporaries below a number are declared once, as constants or parameters, and no others are.
A constant one is referred to once. Every reference is behind the declaration, in the same block or in what is nested in
it. -/
structure ScopedTemporaries (stmts : List Stmt) (count : Nat) : Prop where
  declared_once : ∀ n, (Census.ofStmts true stmts).count (Leaf.declares (temporaryName n)) = if n < count then 1 else 0
  not_variable : ∀ n, .variable (temporaryName n) ∉ Mentions.ofStmts stmts
  used_once : ∀ n, (Census.ofStmts true stmts).count (Leaf.declaresConstant (temporaryName n)) = 1 →
    (Census.ofStmts true stmts).count (Leaf.refersTo (temporaryName n)) = 1
  in_scope : ∀ n, .loose (temporaryName n) ∉ Mentions.ofStmts stmts

theorem ScopedTemporaries.of_census {stmts : List Stmt} {made : List Insertion} {count : Nat} {plain : Census}
    (hcensus : Census.ofStmts true stmts = plain + Insertion.census made)
    (hplain : ∀ leaf ∈ plain, leaf.isTemporary = false) (htemporaries : Insertion.temporaries made = List.range count)
    (hmentions : ∀ m ∈ Mentions.ofStmts stmts, ∀ n, m ≠ .loose (temporaryName n) ∧ m ≠ .variable (temporaryName n)) :
    ScopedTemporaries stmts count := by
  have hnodup : (Insertion.temporaries made).Nodup := htemporaries ▸ List.nodup_range
  have hcount : ∀ {kind : Leaf → Bool} {n : Nat}, Leaf.Bears kind (temporaryName n) →
      (Census.ofStmts true stmts).count kind = (Insertion.census made).count kind := fun hkind => by
    rw [hcensus, Census.count_add, hkind.count_eq_zero hplain, zero_add]
  have hmissing : ∀ {kind : Leaf → Bool} {n : Nat}, Leaf.Bears kind (temporaryName n) → ¬n < count →
      (Census.ofStmts true stmts).count kind = 0 := fun hkind hn => by
    rw [hcount hkind]
    exact Insertion.count_census_eq_zero hkind (by rwa [htemporaries, List.mem_range])
  have hfound : ∀ n, n < count → ∃ i ∈ made, i.temporary? = some n := fun n hn =>
    List.mem_filterMap.1 (show n ∈ Insertion.temporaries made by rwa [htemporaries, List.mem_range])
  refine ⟨fun n => ?_, fun n hm => (hmentions _ hm n).2 rfl, fun n hconstant => ?_,
    fun n hm => (hmentions _ hm n).1 rfl⟩
  · have hkind := Leaf.declares_bears (temporaryName n)
    split
    · obtain ⟨i, hi, hin⟩ := hfound n ‹_›
      rw [hcount hkind, Insertion.count_census_eq hkind hnodup hi hin]
      cases i with
      | hoisted k => obtain rfl := Option.some.inj hin; simp [Insertion.leaves, Leaf.declares]
      | relocated k defaulted =>
          obtain rfl := Option.some.inj hin
          cases defaulted <;> simp [Insertion.leaves, Leaf.declares]
      | joined span => cases hin
      | thunk span => cases hin
    · exact hmissing hkind ‹_›
  · have hkind := Leaf.declaresConstant_bears (temporaryName n)
    have hkind' := Leaf.refersTo_bears (temporaryName n)
    have hn : n < count := by
      by_contra hn
      rw [hmissing hkind hn] at hconstant
      cases hconstant
    obtain ⟨i, hi, hin⟩ := hfound n hn
    rw [hcount hkind, Insertion.count_census_eq hkind hnodup hi hin] at hconstant
    rw [hcount hkind', Insertion.count_census_eq hkind' hnodup hi hin]
    cases i with
    | hoisted k => obtain rfl := Option.some.inj hin; simp [Insertion.leaves, Leaf.refersTo]
    | relocated k defaulted => cases defaulted <;> simp [Insertion.leaves, Leaf.declaresConstant] at hconstant
    | joined span => cases hin
    | thunk span => cases hin

/-! ## Settled bodies -/

/-- Declarations of the prelude have no names like temporaries. -/
theorem Prelude.declarations_plain {helpers : List Stmt}
    (h : ∀ d ∈ helpers, ∃ name ∈ Prelude.names, Prelude.declaration name = .ok d) :
    (∀ leaf ∈ Census.ofStmts true helpers, leaf.isTemporary = false) ∧
      ∀ m ∈ Mentions.ofStmts helpers, isTemporaryName m.name = false := by
  induction helpers with
  | nil => exact ⟨fun leaf hleaf => absurd hleaf (Multiset.notMem_zero leaf), fun m hm => absurd hm (Multiset.notMem_zero m)⟩
  | cons d more ih =>
      obtain ⟨name, hname, hd⟩ := h d List.mem_cons_self
      obtain ⟨hleaves, hmentions⟩ := ih fun d' hd' => h d' (List.mem_cons_of_mem d hd')
      have hplain := Stmt.plain_of_isHelper (Prelude.isHelper_of_declaration hname hd)
      refine ⟨fun leaf hleaf => ?_, fun m hm => ?_⟩
      · rw [Census.ofStmts, Multiset.mem_add] at hleaf
        exact hleaf.elim (hplain.1 leaf) (hleaves leaf)
      · rw [Mentions.ofStmts, Multiset.mem_add] at hm
        exact hm.elim (hplain.2 m) fun hm => hmentions m (Mentions.behind_subset _ _ hm)

/-- In a settled body with declarations of the prelude in front, temporaries are declared once and are used behind their
declarations, if the body itself has no names like temporaries. -/
theorem settle_scopes_temporaries (body : Expr) (capabilities : Capabilities) (args : List String)
    (hbody : ∀ leaf ∈ Census.ofExpr false body, leaf.isTemporary = false) :
    ∃ stmts count, settle body capabilities args = .ok (.mk stmts body.span) ∧ ScopedTemporaries stmts count := by
  obtain ⟨helpers, stmts, made, count, hsettle, hhelpers, htemporaries, haccounted⟩ :=
    Settle.settle_accounted body capabilities args
  obtain ⟨hleaves, hmentions⟩ := Prelude.declarations_plain hhelpers
  have hcensus : Census.ofStmts true stmts = Census.ofExpr false body + Insertion.census made := haccounted.census
  have hall : Census.ofStmts true (helpers ++ stmts) =
      Census.ofStmts true helpers + Census.ofExpr false body + Insertion.census made := by
    rw [Census.ofStmts_append, hcensus, add_assoc]
  refine ⟨helpers ++ stmts, count, hsettle, .of_census hall ?_ htemporaries fun m hm n => ?_⟩
  · intro leaf hleaf
    exact (Multiset.mem_add.1 hleaf).elim (hleaves leaf) (hbody leaf)
  · refine not_or.1 fun hname => ?_
    have htemporary : isTemporaryName m.name = true := by
      obtain rfl | rfl := hname <;> exact Awaited.isTemporaryName_temporaryName n
    rw [Mentions.ofStmts_append, Multiset.mem_add] at hm
    obtain hm | hm := hm
    · rw [hmentions m hm] at htemporary
      cases htemporary
    obtain hm | rfl | rfl := haccounted.mentions m (Mentions.behind_subset _ _ hm)
    · obtain ⟨leaf, hleaf, hm⟩ := Multiset.mem_bind.1 hm
      have hplain := hbody leaf hleaf
      rw [Leaf.isTemporary_of_mentions hm hname] at hplain
      cases hplain
    · exact absurd htemporary (by decide)
    · exact absurd htemporary (by decide)

/-- The function `(x = fetch(fetch('a').b).c) => x`. -/
def chainedDefault : Expr :=
  let s := Span.point 0
  let fetched := fun (e : Expr) (key : String) =>
    Expr.member (.call (.identifier "fetch" s) [.expr e] false s) (.name ⟨key, s⟩) false s
  let default := fetched (fetched (.literal ⟨.string "a", "'a'"⟩ s) "b") "c"
  .arrow [.assign (.ident ⟨"x", s⟩) default] (.expr (.identifier "x" s)) false s

/-- One temporary for each call, in the function around the default, and one for the parameter. -/
theorem chainedDefault_scoped :
    (∀ leaf ∈ Census.ofExpr false chainedDefault, leaf.isTemporary = false) ∧
      ∃ stmts count, settle chainedDefault ⟨[("fetch", true)]⟩ [] = .ok (.mk stmts (.point 0)) ∧
        ScopedTemporaries stmts count := by
  have hplain : ∀ leaf ∈ Census.ofExpr false chainedDefault, leaf.isTemporary = false :=
    (Census.count_eq_zero _ _).1 (by decide +kernel)
  exact ⟨hplain, settle_scopes_temporaries chainedDefault ⟨[("fetch", true)]⟩ [] hplain⟩

example : (settle chainedDefault ⟨[("fetch", true)]⟩ []).toOption.map (fun block => (List.range 4).map fun n =>
    ((Census.ofStmts true block.stmts).count (Leaf.declares (temporaryName n)),
      (Census.ofStmts true block.stmts).count (Leaf.refersTo (temporaryName n)))) =
    some [(1, 1), (1, 1), (1, 2), (0, 0)] := by
  decide +kernel

end FieldScript
