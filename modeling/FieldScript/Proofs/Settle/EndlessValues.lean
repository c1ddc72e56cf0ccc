import Mathlib.Data.Fintype.Pigeonhole
import Mathlib.Logic.Relation
import FieldScript.Proofs.Settle.LateCalls
import FieldScript.Validate

/-!
# Values that contain themselves

Arrays and objects are shared, and a body can put an array into itself. Documents and texts follow a
value to its end, so they do not exist for a value that leads back to itself. They exist for every
other value, however often its parts are shared.

* `Store.Contains` and `Store.Lists`: what documents and texts go down to.
* `Endless`: a value leads to one that leads back to itself.
* `Levels.ok_iff`: a conversion that goes down level by level succeeds if and only if the value is not
  endless. A way that is longer than there are cells with content meets one of them twice.
* `invocation_answers_iff`: an invocation whose body comes to an end has an answer unless what the body
  hands out is endless. `selfPush_aborts` is a body that hands out such a value.
-/

namespace FieldScript

/-! ## Ways through values -/

/-- A value leads to one that leads back to itself. -/
def Endless {α : Type} (R : α → α → Prop) (v : α) : Prop :=
  ∃ w, Relation.ReflTransGen R v w ∧ Relation.TransGen R w w

/-- A conversion that goes down level by level: `ok d v` is to say that it succeeds on `v` within `d`
levels. Only finitely many values have a content, and they are numbered. -/
structure Levels {α : Type} (R : α → α → Prop) (ok : Nat → α → Prop) (n : Nat) : Prop where
  zero : ∀ v w, R v w → ¬ok 0 v
  succ : ∀ d v, ok (d + 1) v ↔ ∀ w, R v w → ok d w
  mono : ∀ d v, ok d v → ok (d + 1) v
  numbered : ∃ number : α → Nat, ∀ v w, R v w → number v < n ∧ ∀ v' w', R v' w' → number v = number v' → v = v'

namespace Levels

variable {α : Type} {R : α → α → Prop} {ok : Nat → α → Prop} {n d : Nat} {v w : α}

/-- Where the conversion succeeds it succeeds one level further down within one level less. -/
theorem content (h : Levels R ok n) (hv : ok d v) (hR : R v w) : ∃ e, d = e + 1 ∧ ok e w := by
  cases d with
  | zero => exact absurd hv (h.zero v w hR)
  | succ d => exact ⟨d, rfl, (h.succ d v).1 hv w hR⟩

theorem leads (h : Levels R ok n) (hv : ok d v) (hR : Relation.ReflTransGen R v w) : ok d w := by
  induction hR with
  | refl => exact hv
  | tail _ hstep ih =>
      obtain ⟨e, rfl, hw⟩ := h.content ih hstep
      exact h.mono _ _ hw

/-- What succeeds is not endless. -/
theorem not_endless (h : Levels R ok n) (hv : ok d v) : ¬Endless R v := by
  rintro ⟨w, hleads, hback⟩
  have hw : ok d w := h.leads hv hleads
  clear hv hleads
  -- The first step of the way back costs a level, so there is no least number of levels for `w`.
  induction d with
  | zero =>
      obtain ⟨u, hstep, -⟩ := Relation.TransGen.head'_iff.1 hback
      exact h.zero w u hstep hw
  | succ d ih =>
      obtain ⟨u, hstep, hrest⟩ := Relation.TransGen.head'_iff.1 hback
      have hu : ok d u := (h.succ d w).1 hw u hstep
      exact ih (h.leads hu hrest)

/-- Where the conversion fails within some levels there is a way that long. -/
theorem exists_way (h : Levels R ok n) (hv : ¬ok d v) :
    ∃ way : Nat → α, way 0 = v ∧ ∀ i < d, R (way i) (way (i + 1)) := by
  induction d generalizing v with
  | zero => exact ⟨fun _ => v, rfl, fun i hi => absurd hi (Nat.not_lt_zero i)⟩
  | succ d ih =>
      have hcontent : ∃ w, R v w ∧ ¬ok d w := by
        by_contra hall
        push Not at hall
        exact hv ((h.succ d v).2 hall)
      obtain ⟨w, hR, hw⟩ := hcontent
      obtain ⟨way, hstart, hway⟩ := ih hw
      refine ⟨fun i => i.casesOn v way, rfl, fun i hi => ?_⟩
      cases i with
      | zero =>
          show R v (way 0)
          rwa [hstart]
      | succ i => exact hway i (by omega)

theorem way_leads {way : Nat → α} {i j : Nat} (hway : ∀ k, i ≤ k → k < j → R (way k) (way (k + 1))) (hij : i ≤ j) :
    Relation.ReflTransGen R (way i) (way j) := by
  induction hij with
  | refl => exact .refl
  | step hle ih => exact (ih fun k hik hkj => hway k hik (by omega)).tail (hway _ hle (Nat.lt_succ_self _))

/-- A way with more steps than there are values with a content leads to one of them twice. -/
theorem endless_of_way (h : Levels R ok n) {way : Nat → α} (hway : ∀ i < n + 1, R (way i) (way (i + 1))) :
    Endless R (way 0) := by
  obtain ⟨number, hnumber⟩ := h.numbered
  have htwice : ∃ i j : Fin (n + 1), i < j ∧ way i = way j := by
    let place : Fin (n + 1) → Fin n := fun i => ⟨number (way i), (hnumber _ _ (hway i i.isLt)).1⟩
    obtain ⟨i, j, hne, hsame⟩ := Fintype.exists_ne_map_eq_of_card_lt place (by simp)
    have heq : way i = way j := (hnumber _ _ (hway i i.isLt)).2 _ _ (hway j j.isLt) (Fin.ext_iff.1 hsame)
    rcases lt_or_gt_of_ne hne with hlt | hlt
    · exact ⟨i, j, hlt, heq⟩
    · exact ⟨j, i, hlt, heq.symm⟩
  obtain ⟨i, j, hlt, heq⟩ := htwice
  have hij : i.val < j.val := hlt
  refine ⟨way i, way_leads (fun k _ hk => hway k (by omega)) (Nat.zero_le _), ?_⟩
  have hfirst : R (way i) (way (i + 1)) := hway i i.isLt
  have hrest : Relation.ReflTransGen R (way (i + 1)) (way j) := way_leads (fun k _ hk => hway k (by omega)) hij
  rw [← heq] at hrest
  exact Relation.TransGen.head' hfirst hrest

/-- The conversion succeeds within one level more than there are values with a content, unless the value
is endless. -/
theorem ok_iff (h : Levels R ok n) (v : α) : ok (n + 1) v ↔ ¬Endless R v := by
  constructor
  · exact h.not_endless
  · intro hends
    by_contra hfails
    obtain ⟨way, rfl, hway⟩ := h.exists_way hfails
    exact hends (h.endless_of_way hway)

end Levels

/-! ## Contents of arrays and objects -/

theorem exists_mapM_ok_iff {ε α δ : Type} {f : α → Except ε δ} {xs : List α} :
    (∃ zs, xs.mapM f = .ok zs) ↔ ∀ x ∈ xs, ∃ z, f x = .ok z :=
  ⟨fun ⟨_, h⟩ _ hx => exists_ok_of_mem h hx, exists_mapM_ok⟩

namespace Store

/-- A value is an element of an array or the value of an entry of an object. -/
inductive Contains (s : Store) : Value → Value → Prop where
  | element {a : ArrayRef} {v : Value} (h : v ∈ (s.array a).toList) : Contains s (.array a) v
  | entry {o : ObjectRef} {e : String × Value} (h : e ∈ s.object o) : Contains s (.object o) e.2

/-- A value is an element of an array. The text of an object does not depend on its entries. -/
inductive Lists (s : Store) : Value → Value → Prop where
  | element {a : ArrayRef} {v : Value} (h : v ∈ (s.array a).toList) : Lists s (.array a) v

variable {s : Store}

theorem array_lt {a : ArrayRef} {v : Value} (h : v ∈ (s.array a).toList) : a.index < s.arrays.size := by
  by_contra hle
  unfold array at h
  rw [Array.getElem?_eq_none (Nat.not_lt.1 hle)] at h
  cases h

theorem object_lt {o : ObjectRef} {e : String × Value} (h : e ∈ s.object o) : o.index < s.objects.size := by
  by_contra hle
  unfold object at h
  rw [Array.getElem?_eq_none (Nat.not_lt.1 hle)] at h
  cases h

/-- The number of the cell of a value among all cells of a store. -/
def place (s : Store) : Value → Nat
  | .array a => a.index
  | .object o => s.arrays.size + o.index
  | _ => 0

theorem Contains.place_lt {v w : Value} (h : s.Contains v w) : s.place v < s.arrays.size + s.objects.size := by
  cases h with
  | element h =>
      have hlt := array_lt h
      exact Nat.lt_add_right _ hlt
  | entry h =>
      have hlt := object_lt h
      exact Nat.add_lt_add_left hlt _

theorem Contains.place_injective {v w v' w' : Value} (h : s.Contains v w) (h' : s.Contains v' w')
    (heq : s.place v = s.place v') : v = v' := by
  cases h with
  | element h =>
      have hlt := array_lt h
      cases h' with
      | element _ => exact congrArg Value.array (congrArg ArrayRef.mk heq)
      | entry _ =>
          simp only [place] at heq
          omega
  | entry h =>
      cases h' with
      | element h' =>
          have hlt := array_lt h'
          simp only [place] at heq
          omega
      | entry _ => exact congrArg Value.object (congrArg ObjectRef.mk (Nat.add_left_cancel heq))

/-- The document of an array exists within one level more than those of its elements. -/
theorem exists_documentOf?_array {a : ArrayRef} {d : Nat} : (∃ r, s.documentOf? (d + 1) (.array a) = .ok r) ↔
    ∀ v ∈ (s.array a).toList, ∃ r, s.documentOf? d v = .ok r := by
  have hitems : (∃ r, s.documentOf? (d + 1) (.array a) = .ok r) ↔
      ∃ items, (s.array a).toList.mapM (s.itemDocument d) = .ok items := by
    simp only [documentOf?_array]
    exact ⟨fun ⟨_, items, h, _⟩ => ⟨items, h⟩, fun ⟨items, h⟩ => ⟨_, items, h, rfl⟩⟩
  rw [hitems, exists_mapM_ok_iff]
  simp only [itemDocument_ok]

/-- The document of an object exists within one level more than those of its entries. -/
theorem exists_documentOf?_object {o : ObjectRef} {d : Nat} : (∃ r, s.documentOf? (d + 1) (.object o) = .ok r) ↔
    ∀ e ∈ s.object o, ∃ r, s.documentOf? d e.2 = .ok r := by
  have hmembers : (∃ r, s.documentOf? (d + 1) (.object o) = .ok r) ↔
      ∃ members, (s.object o).mapM (s.memberDocument d) = .ok members := by
    simp only [documentOf?_object]
    exact ⟨fun ⟨_, members, h, _⟩ => ⟨members, h⟩, fun ⟨members, h⟩ => ⟨_, members, h, rfl⟩⟩
  rw [hmembers, exists_mapM_ok_iff]
  simp only [memberDocument_ok]

/-- The text of an array exists within one level more than those of its elements. -/
theorem exists_textOf_array {a : ArrayRef} {d : Nat} : (∃ t, s.textOf none (d + 1) (.array a) = .ok t) ↔
    ∀ v ∈ (s.array a).toList, ∃ t, s.textOf none d v = .ok t := by
  have hparts : (∃ t, s.textOf none (d + 1) (.array a) = .ok t) ↔
      ∃ parts, (s.array a).toList.mapM (s.itemText none d) = .ok parts := by
    simp only [textOf_array]
    exact ⟨fun ⟨_, _, parts, h, _⟩ => ⟨parts, h⟩, fun ⟨parts, h⟩ => ⟨_, nofun, parts, h, rfl⟩⟩
  rw [hparts, exists_mapM_ok_iff]
  -- An element that is null or undefined has a text of its own, but here it counts as empty.
  have hitem : ∀ v, (∃ t, s.itemText none d v = .ok t) ↔ ∃ t, s.textOf none d v = .ok t := by
    intro v
    unfold itemText
    by_cases hnullish : v.isNullish = true
    · have htext : ∃ t, s.textOf none d v = .ok t := by
        cases v with
        | undefined => exact ⟨_, by rw [textOf]⟩
        | null => exact ⟨_, by rw [textOf]⟩
        | _ => cases hnullish
      simp only [hnullish, if_true, htext, iff_true]
      exact ⟨_, rfl⟩
    · simp only [hnullish, if_false, Bool.false_eq_true]
  simp only [hitem]

/-- Documents go down along contents. -/
theorem contains_levels (s : Store) :
    Levels s.Contains (fun d v => ∃ r, s.documentOf? d v = .ok r) (s.arrays.size + s.objects.size) where
  zero v w hR := by
    rintro ⟨r, hr⟩
    cases hR <;> cases hr
  succ d v := by
    by_cases harray : ∃ a, v = .array a
    · obtain ⟨a, rfl⟩ := harray
      rw [exists_documentOf?_array]
      constructor
      · rintro h w ⟨hw⟩
        exact h w hw
      · exact fun h w hw => h w (.element hw)
    by_cases hobject : ∃ o, v = .object o
    · obtain ⟨o, rfl⟩ := hobject
      rw [exists_documentOf?_object]
      constructor
      · intro h w hw
        cases hw with
        | entry he => exact h _ he
      · exact fun h e he => h e.2 (.entry he)
    · have hflat : ∃ r, s.documentOf? (d + 1) v = .ok r := by
        cases v with
        | array a => exact absurd ⟨a, rfl⟩ harray
        | object o => exact absurd ⟨o, rfl⟩ hobject
        | _ => exact ⟨_, by rw [documentOf?]⟩
      refine iff_of_true hflat fun w hw => ?_
      cases hw with
      | element _ => exact absurd ⟨_, rfl⟩ harray
      | entry _ => exact absurd ⟨_, rfl⟩ hobject
  mono d v := fun ⟨r, hr⟩ => ⟨r, documentOf?_succ hr⟩
  numbered := ⟨s.place, fun _ _ h => ⟨h.place_lt, fun _ _ h' => h.place_injective h'⟩⟩

/-- Texts go down along elements. -/
theorem lists_levels (s : Store) :
    Levels s.Lists (fun d v => ∃ t, s.textOf none d v = .ok t) s.arrays.size where
  zero v w hR := by
    rintro ⟨t, ht⟩
    cases hR
    exact textOf_array_zero ht
  succ d v := by
    by_cases harray : ∃ a, v = .array a
    · obtain ⟨a, rfl⟩ := harray
      rw [exists_textOf_array]
      constructor
      · rintro h w ⟨hw⟩
        exact h w hw
      · exact fun h w hw => h w (.element hw)
    · have hflat : ∃ t, s.textOf none (d + 1) v = .ok t := by
        cases v with
        | array a => exact absurd ⟨a, rfl⟩ harray
        | _ => exact ⟨_, by rw [textOf]⟩
      refine iff_of_true hflat fun w hw => ?_
      cases hw
      exact absurd ⟨_, rfl⟩ harray
  mono d v := fun ⟨t, ht⟩ => ⟨t, textOf_succ ht⟩
  numbered := by
    refine ⟨s.place, ?_⟩
    rintro _ _ ⟨h⟩
    refine ⟨array_lt h, ?_⟩
    rintro _ _ ⟨h'⟩ heq
    exact congrArg Value.array (congrArg ArrayRef.mk heq)

/-- A value has a document unless it is endless. -/
theorem exists_document_iff (s : Store) (v : Value) : (∃ j, s.document v = .ok j) ↔ ¬Endless s.Contains v := by
  rw [← s.contains_levels.ok_iff v]
  unfold document document?
  cases s.documentOf? (s.arrays.size + s.objects.size + 1) v with
  | error e => exact iff_of_false nofun nofun
  | ok r => exact iff_of_true ⟨_, rfl⟩ ⟨r, rfl⟩

/-- A value has a text unless it is endless as far as arrays are concerned. -/
theorem exists_text_iff (s : Store) (v : Value) : (∃ t, s.text v = .ok t) ↔ ¬Endless s.Lists v :=
  s.lists_levels.ok_iff v

end Store

/-! ## Answers of invocations -/

/-- The value of the body that an outcome hands out. An error that the body did not throw itself has none. -/
def handedOut : Except Raised Value → Option Value
  | .ok v => some v
  | .error (.thrown v) => some v
  | .error _ => none

/-- An outcome has an answer unless what it hands out is endless. -/
theorem Store.exists_answer_iff (s : Store) (result : Except Raised Value) :
    (∃ answer, s.answer result = .ok answer) ↔ ∀ v, handedOut result = some v → ¬Endless s.Contains v := by
  have hmade : ∀ {r : Raised} {name message : String}, Change.raisedValue r = Change.newError name message →
      ∃ answer, s.answer (.error r) = .ok answer := by
    intro r name message hraised
    refine ⟨.error (Json.object [("name", .string name), ("message", .string message)]).render, ?_⟩
    show (s.faultMessage r >>= _) = _
    rw [faultMessage_newError hraised]
    rfl
  rcases result with r | v
  · cases r with
    | thrown v =>
        have hvalue : (∃ answer, s.answer (.error (.thrown v)) = .ok answer) ↔ ∃ j, s.document v = .ok j := by
          show (∃ answer, (s.faultMessage (.thrown v) >>= _) = _) ↔ _
          show (∃ answer, ((s.document? v >>= _) >>= _) = _) ↔ ∃ j, (s.document? v >>= _) = _
          rcases s.document? v with e | _ | j
          · exact iff_of_false nofun nofun
          · exact iff_of_true ⟨_, rfl⟩ ⟨_, rfl⟩
          · exact iff_of_true ⟨_, rfl⟩ ⟨_, rfl⟩
        simp only [hvalue, s.exists_document_iff, handedOut, Option.some.injEq, forall_eq']
    | type fault => exact iff_of_true (hmade rfl) nofun
    | unbound name => exact iff_of_true (hmade rfl) nofun
    | range fault => exact iff_of_true (hmade rfl) nofun
  · have hvalue : (∃ answer, s.answer (.ok v) = .ok answer) ↔ ∃ j, s.document v = .ok j := by
      show (∃ answer, (s.document v >>= _) = _) ↔ _
      cases s.document v with
      | error e => exact iff_of_false nofun nofun
      | ok j => exact iff_of_true ⟨_, rfl⟩ ⟨j, rfl⟩
    simp only [hvalue, s.exists_document_iff, handedOut, Option.some.injEq, forall_eq']

/-- If the run of a body comes to its end, then the invocation has an answer if and only if what the body hands out
is not endless. In every store, a value has a document if and only if it is not endless, and it has a text if and only
if it is not endless as far as arrays are concerned. -/
theorem invocation_answers_iff {fuel : Nat} {capabilities : Capabilities} {api : Api} {args : List String}
    {body : Block} {data : Json} {journal : Journal} {result : Except Raised Value} {t : Store}
    (hrun : Comp.run ((Setting.ofData capabilities api args data journal).context fuel).runJob fuel
      (((Setting.ofData capabilities api args data journal).context fuel).runBody body)
      (Store.start data journal).2 = .ok (result, t)) :
    ((∃ invocation, invoke fuel capabilities api args body data journal = .ok invocation) ↔
      ∀ v, handedOut result = some v → ¬Endless t.Contains v) ∧
    (∀ (s : Store) (v : Value), (∃ j, s.document v = .ok j) ↔ ¬Endless s.Contains v) ∧
    ∀ (s : Store) (v : Value), (∃ text, s.text v = .ok text) ↔ ¬Endless s.Lists v := by
  refine ⟨?_, Store.exists_document_iff, Store.exists_text_iff⟩
  rw [← t.exists_answer_iff result]
  constructor
  · rintro ⟨⟨answer, journal'⟩, hinvoke⟩
    obtain ⟨result', t', hrun', hanswer, -⟩ := invoke_ok.1 hinvoke
    cases Except.ok.inj (hrun.symm.trans hrun')
    exact ⟨answer, hanswer⟩
  · rintro ⟨answer, hanswer⟩
    exact ⟨⟨answer, t.journal⟩, invoke_ok.2 ⟨result, t, hrun, hanswer, rfl⟩⟩

/-- The body `(a => [a, a])([])`. -/
def sharedTwice : Expr :=
  .call (.arrow [.ident ⟨"a", .point 0⟩] (.expr (.array [.expr (nameTree "a"), .expr (nameTree "a")] (.point 0))) false
    (.point 0)) [.expr (.array [] (.point 0))] false (.point 0)

/-- The run of a body without capabilities and arguments. -/
def runAlone (block : Block) : Except Abort (Except Raised Value × Store) :=
  Comp.run ((Setting.ofData .empty ⟨0, []⟩ [] .null .empty).context defaultFuel).runJob defaultFuel
    (((Setting.ofData .empty ⟨0, []⟩ [] .null .empty).context defaultFuel).runBody block) (Store.start .null .empty).2

/-- The invocation of a body without capabilities and arguments. -/
def invokeAlone (block : Block) : Except Abort Invocation :=
  invoke defaultFuel .empty ⟨0, []⟩ [] block .null .empty

/-- An array that stands in another one twice does not contain itself: the invocation has an answer, so what the body
hands out is not endless. -/
theorem sharedTwice_answers : ∃ block result t, settle sharedTwice .empty [] = .ok block ∧
    runAlone block = .ok (result, t) ∧ (∃ invocation, invokeAlone block = .ok invocation) ∧
    ∀ v, handedOut result = some v → ¬Endless t.Contains v := by
  have hruns : (settle sharedTwice .empty []).toOption.any (fun block => (invokeAlone block).toOption.isSome) = true := by
    decide +kernel
  cases hsettle : settle sharedTwice .empty [] with
  | error e =>
      rw [hsettle] at hruns
      cases hruns
  | ok block =>
      rw [hsettle] at hruns
      have hanswers : (invokeAlone block).toOption.isSome = true := hruns
      cases hinvoke : invokeAlone block with
      | error e =>
          rw [hinvoke] at hanswers
          cases hanswers
      | ok invocation =>
          obtain ⟨answer, journal⟩ := invocation
          obtain ⟨result, t, hrun, -, -⟩ := invoke_ok.1 hinvoke
          exact ⟨block, result, t, rfl, hrun, ⟨_, hinvoke⟩, (invocation_answers_iff hrun).1.1 ⟨_, hinvoke⟩⟩

/-- The body `(a => { a.push(a); return a; })([])`. -/
def selfPush : Expr :=
  .call (.arrow [.ident ⟨"a", .point 0⟩] (.block (.mk [
      .expr (.call (accessTree (nameTree "a") "push") [.expr (nameTree "a")] false (.point 0)) (.point 0),
      .return (some (nameTree "a")) (.point 0)] (.point 0))) false (.point 0))
    [.expr (.array [] (.point 0))] false (.point 0)

/-- Why an invocation has no answer. -/
def abortOf : Except Abort Invocation → Option Abort
  | .ok _ => none
  | .error abort => some abort

/-- A body that is valid and whose run comes to its end, and whose invocation has no answer. -/
theorem selfPush_aborts :
    selfPush.validate .empty [] false = .ok () ∧
    (settle selfPush .empty []).toOption.map (fun block =>
      ((runAlone block).toOption.isSome, abortOf (invokeAlone block))) = some (true, some .cyclic) := by
  decide +kernel

end FieldScript
