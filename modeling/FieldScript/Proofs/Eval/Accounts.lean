import FieldScript.Proofs.Eval.Drive
import FieldScript.Proofs.Eval.Orderly

/-!
# Every call is accounted for

The journal of a run and the promises at hand tell together how far each call of an external function has
come. A call of an asynchronous function is in the journal with its whole course, or there is exactly one
promise for its answer, and then the journal shows the part of the course that the promise stands for.

* `course`: the events of one call.
* `Accounts`: the journal and the promises fit together.
* What can happen to them keeps `Accounts`: synchronous calls, a new call with its promise, a poll of an
  answer, and changes of other promises.
-/

namespace FieldScript

/-! ## Events -/

/-- The call that an event belongs to. -/
def Event.id : Event → Nat
  | .call id .. => id
  | .start id => id
  | .done id => id

/-- The events of one call. -/
def course (events : List Event) (id : Nat) : List Event := events.filter (·.id == id)

section

variable {events more : List Event} {id : Nat}

theorem course_append : course (events ++ more) id = course events id ++ course more id := List.filter_append ..

theorem mem_course {e : Event} : e ∈ course events id ↔ e ∈ events ∧ e.id = id := by simp [course]

theorem course_eq_self (h : ∀ e ∈ events, e.id = id) : course events id = events :=
  List.filter_eq_self.2 fun e he => by simp [h e he]

theorem course_eq_nil (h : ∀ e ∈ events, e.id ≠ id) : course events id = [] :=
  List.filter_eq_nil_iff.2 fun e he => by simp [h e he]

/-- Events of one call are not events of another. -/
theorem course_append_ne {other : Nat} (h : ∀ e ∈ more, e.id = id) (hne : other ≠ id) :
    course (events ++ more) other = course events other := by
  rw [course_append, course_eq_nil fun e he => (h e he).trans_ne hne.symm, List.append_nil]

end

namespace Journal

theorem toList_record (j : Journal) (e : Event) : (j.record e).events.toList = j.events.toList ++ [e] :=
  Array.toList_push

theorem calls_record_call (j : Journal) (id owner : Nat) (name : String) (args : List Json) :
    (j.record (.call id owner name args)).calls = j.calls + 1 := by
  simp [calls, record]

theorem toList_recorded (j : Journal) (events : List Event) :
    (events.foldl record j).events.toList = j.events.toList ++ events := by
  induction events generalizing j with
  | nil => simp
  | cons e events ih => rw [List.foldl_cons, ih, toList_record, List.append_assoc, List.singleton_append]

/-- Only calls are counted. -/
theorem calls_recorded {events : List Event} {id : Nat} (h : ∀ e ∈ events, e = .start id ∨ e = .done id)
    (j : Journal) : (events.foldl record j).calls = j.calls := by
  induction events generalizing j with
  | nil => rfl
  | cons e events ih =>
      rw [List.foldl_cons, ih fun e he => h e (List.mem_cons_of_mem _ he)]
      rcases h e List.mem_cons_self with rfl | rfl <;> simp [calls, record]

end Journal

/-! ## Accounts -/

/-- A promise stands for the answer to a call; whether the answer was asked for yet. -/
def Awaited (promises : Array Slot) (i id : Nat) (started : Bool) : Prop :=
  ∃ response, promises[i]? = some (.host id started response)

/-- A slot that does not stand for the answer to a call, and goes on in an orderly way if it waits. -/
def Slot.Plain (api : Api) : Slot → Prop
  | .host .. => False
  | .waiting _ resume => ∀ outcome s, (resume outcome s).Orderly api s.journal
  | _ => True

/-- A call of an asynchronous function. -/
def Event.IsAsync (api : Api) (e : Event) (id : Nat) : Prop :=
  ∃ name args f, e = .call id api.owner name args ∧ api.get? name = some f ∧ f.isAsync = true

/-- The course of a call whose answer has not been handed over. -/
def openCourse (call : Event) (id : Nat) (started : Bool) : List Event :=
  call :: if started then [.start id] else []

/-- The whole course of a call: that of an asynchronous function is started and then done. -/
def wholeCourse (call : Event) (id : Nat) (isAsync : Bool) : List Event :=
  call :: if isAsync then [.start id, .done id] else []

theorem openCourse_handOver (call : Event) (id : Nat) (started : Bool) :
    openCourse call id started ++ handOver id started = wholeCourse call id true := by
  cases started <;> rfl

/-- What a poll of an answer makes of its promise, and the events it writes: the promise goes on to stand for the
answer, or the course of the call is complete. -/
def Slot.Advances (slot : Slot) (id : Nat) (started : Bool) (events : List Event) : Prop :=
  match slot with
  | .host id' started' _ => id' = id ∧ ∀ call, openCourse call id started ++ events = openCourse call id started'
  | .settled _ => ∀ call, openCourse call id started ++ events = wholeCourse call id true
  | _ => False

/-- The events since a journal fit the promises at hand. A promise that stands for an answer is tracked or
among those that are left. -/
structure Accounts (api : Api) (base : Journal) (left : List PromiseRef) (news : List Event) (j : Journal)
    (promises : Array Slot) (tracked : Array PromiseRef) : Prop where
  journal : j.events.toList = base.events.toList ++ news
  numbered : ∀ e ∈ news, e.id < j.calls
  asked : ∀ {i id : Nat} {started : Bool}, Awaited promises i id started →
    ∃ call : Event, call.IsAsync api id ∧ course news id = openCourse call id started
  single : ∀ {i i' id : Nat} {started started' : Bool}, Awaited promises i id started →
    Awaited promises i' id started' → i = i'
  known : ∀ {id owner : Nat} {name : String} {args : List Json}, .call id owner name args ∈ news →
    owner = api.owner ∧ ∃ f, api.get? name = some f ∧
      (course news id = wholeCourse (.call id owner name args) id f.isAsync ∨
        f.isAsync = true ∧ ∃ i started, Awaited promises i id started)
  tracked : ∀ {i id : Nat} {started : Bool}, Awaited promises i id started → ⟨i⟩ ∈ tracked ∨ ⟨i⟩ ∈ left
  waiting : ∀ {i : Nat} {p : PromiseRef} {resume : Settled → Store → Suspension Value},
    promises[i]? = some (.waiting p resume) → ∀ outcome s, (resume outcome s).Orderly api s.journal

section

variable {promises : Array Slot} {i i' id : Nat} {started : Bool} {slot : Slot}

theorem awaited_set_ne (h : i ≠ i') :
    Awaited (promises.setIfInBounds i slot) i' id started ↔ Awaited promises i' id started := by
  unfold Awaited
  rw [Array.getElem?_setIfInBounds_ne h]

/-- A slot that stands for an answer after one was changed is another one, or the new one does. -/
theorem Awaited.of_set (h : Awaited (promises.setIfInBounds i slot) i' id started) :
    Awaited promises i' id started ∧ i ≠ i' ∨ i = i' ∧ ∃ response, slot = .host id started response := by
  by_cases hi : i = i'
  · subst hi
    obtain ⟨response, h⟩ := h
    obtain ⟨_, h⟩ := Array.getElem?_eq_some_iff.1 h
    rw [Array.getElem_setIfInBounds_self] at h
    exact .inr ⟨rfl, response, h⟩
  · exact .inl ⟨(awaited_set_ne hi).1 h, hi⟩

theorem Awaited.of_push (h : Awaited (promises.push slot) i id started) :
    Awaited promises i id started ∨ i = promises.size ∧ ∃ response, slot = .host id started response := by
  obtain ⟨response, h⟩ := h
  rw [Array.getElem?_push] at h
  split at h
  · exact .inr ⟨‹_›, response, Option.some.inj h⟩
  · exact .inl ⟨response, h⟩

theorem Awaited.push (h : Awaited promises i id started) : Awaited (promises.push slot) i id started := by
  obtain ⟨response, h⟩ := h
  refine ⟨response, ?_⟩
  have hbound := (Array.getElem?_eq_some_iff.1 h).1
  rw [Array.getElem?_push, if_neg (by omega), h]

end

namespace Accounts

variable {api : Api} {base j : Journal} {left : List PromiseRef} {news : List Event} {promises : Array Slot}
  {tracked : Array PromiseRef} {name : String} {f : HostFunction}

/-- Nothing has happened yet. -/
theorem start (api : Api) (base : Journal) : Accounts api base [] [] base #[] #[] where
  journal := (List.append_nil _).symm
  numbered := nofun
  asked h := by obtain ⟨_, h⟩ := h; cases h
  single h := by obtain ⟨_, h⟩ := h; cases h
  known := nofun
  tracked h := by obtain ⟨_, h⟩ := h; cases h
  waiting h := by cases h

/-! ## Calls -/

/-- A call that is new does not belong to the course of an earlier one. -/
theorem course_call {id : Nat} {args : List Json} (hid : id ≠ j.calls) :
    course (news ++ [Event.call j.calls api.owner name args]) id = course news id :=
  course_append_ne (by simp [Event.id]) hid

section

variable (h : Accounts api base left news j promises tracked)

include h

theorem call_ne {id owner : Nat} {args : List Json} (hcall : .call id owner name args ∈ news) : id ≠ j.calls :=
  Nat.ne_of_lt (h.numbered _ hcall)

theorem course_calls : course news j.calls = [] :=
  course_eq_nil fun e he => Nat.ne_of_lt (h.numbered e he)

theorem course_call_self {args : List Json} :
    course (news ++ [Event.call j.calls api.owner name args]) j.calls = [.call j.calls api.owner name args] := by
  rw [course_append, h.course_calls, course_eq_self (by simp [Event.id]), List.nil_append]

theorem awaited_ne {i id : Nat} {started : Bool} (hawaited : Awaited promises i id started) : id ≠ j.calls := by
  rintro rfl
  obtain ⟨call, _, hcourse⟩ := h.asked hawaited
  rw [h.course_calls] at hcourse
  cases hcourse

theorem numbered_call {args : List Json} : ∀ e ∈ news ++ [Event.call j.calls api.owner name args],
    e.id < (j.record (.call j.calls api.owner name args)).calls := by
  intro e he
  rw [Journal.calls_record_call]
  rcases List.mem_append.1 he with he | he
  · exact Nat.lt_succ_of_lt (h.numbered e he)
  · rw [List.mem_singleton.1 he]
    exact Nat.lt_succ_self _

theorem journal_record (e : Event) : (j.record e).events.toList = base.events.toList ++ (news ++ [e]) := by
  rw [Journal.toList_record, h.journal, List.append_assoc]

/-- A call that is answered on the spot. -/
theorem callNow (args : List Json) (hname : api.get? name = some f) (hsync : f.isAsync = false) :
    Accounts api base left (news ++ [Event.call j.calls api.owner name args])
      (j.record (.call j.calls api.owner name args)) promises tracked where
  journal := h.journal_record _
  numbered := h.numbered_call
  asked hawaited := by
    rw [course_call (h.awaited_ne hawaited)]
    exact h.asked hawaited
  single := h.single
  known {id owner other args'} hcall := by
    rcases List.mem_append.1 hcall with hcall | hcall
    · rw [course_call (h.call_ne hcall)]
      exact h.known hcall
    · cases List.mem_singleton.1 hcall
      refine ⟨rfl, f, hname, .inl ?_⟩
      rw [h.course_call_self, hsync]
      rfl
  tracked := h.tracked
  waiting := h.waiting

/-- Calls that are answered on the spot. -/
theorem quiet {j' : Journal} (hquiet : Journal.Quiet api j j') :
    ∃ news', Accounts api base left news' j' promises tracked := by
  induction hquiet with
  | refl => exact ⟨news, h⟩
  | call args _ hname hsync ih =>
      obtain ⟨news', h'⟩ := ih
      exact ⟨_, h'.callNow args hname hsync⟩

/-- A call whose answer comes as a promise. -/
theorem callLater (args : List Json) (response : Response) (hname : api.get? name = some f) (hasync : f.isAsync = true) :
    Accounts api base left (news ++ [Event.call j.calls api.owner name args])
      (j.record (.call j.calls api.owner name args)) (promises.push (.host j.calls false response))
      (tracked.push ⟨promises.size⟩) where
  journal := h.journal_record _
  numbered := h.numbered_call
  asked hawaited := by
    rcases hawaited.of_push with hawaited | ⟨_, response', heq⟩
    · rw [course_call (h.awaited_ne hawaited)]
      exact h.asked hawaited
    · cases heq
      exact ⟨_, ⟨name, args, f, rfl, hname, hasync⟩, h.course_call_self⟩
  single hawaited hawaited' := by
    rcases hawaited.of_push with hold | ⟨rfl, response', heq⟩ <;>
      rcases hawaited'.of_push with hold' | ⟨rfl, response'', heq'⟩
    · exact h.single hold hold'
    · cases heq'
      exact absurd rfl (h.awaited_ne hold)
    · cases heq
      exact absurd rfl (h.awaited_ne hold')
    · rfl
  known {id owner other args'} hcall := by
    rcases List.mem_append.1 hcall with hcall | hcall
    · rw [course_call (h.call_ne hcall)]
      obtain ⟨howner, f', hname', hcourse | ⟨hasync', i, started, hawaited⟩⟩ := h.known hcall
      · exact ⟨howner, f', hname', .inl hcourse⟩
      · exact ⟨howner, f', hname', .inr ⟨hasync', i, started, hawaited.push⟩⟩
    · cases List.mem_singleton.1 hcall
      refine ⟨rfl, f, hname, .inr ⟨hasync, promises.size, false, response, ?_⟩⟩
      rw [Array.getElem?_push_size]
  tracked hawaited := by
    rcases hawaited.of_push with hawaited | ⟨rfl, _⟩
    · exact (h.tracked hawaited).imp_left (Array.mem_push_of_mem _)
    · exact .inl Array.mem_push_self
  waiting hslot := by
    rw [Array.getElem?_push] at hslot
    split at hslot
    · cases hslot
    · exact h.waiting hslot

/-! ## Polls of answers -/

/-- The call whose answer a promise stands for is the only event of its course that is a call. -/
theorem known_awaited {i id owner : Nat} {args : List Json} {started : Bool} (hawaited : Awaited promises i id started)
    (hcall : .call id owner name args ∈ news) : owner = api.owner ∧ ∃ f, api.get? name = some f ∧ f.isAsync = true ∧
      course news id = openCourse (.call id owner name args) id started := by
  obtain ⟨call, ⟨name', args', f, rfl, hname, hasync⟩, hcourse⟩ := h.asked hawaited
  have hmem : Event.call id owner name args ∈ course news id := mem_course.2 ⟨hcall, rfl⟩
  rw [hcourse] at hmem
  have heq : Event.call id owner name args = .call id api.owner name' args' := by
    cases started <;> simpa [openCourse] using hmem
  cases heq
  exact ⟨rfl, f, hname, hasync, hcourse⟩

theorem awaited_lt {i id : Nat} {started : Bool} (hawaited : Awaited promises i id started) : id < j.calls := by
  obtain ⟨call, ⟨name, args, f, rfl, _⟩, hcourse⟩ := h.asked hawaited
  have hmem : Event.call id api.owner name args ∈ course news id := by
    rw [hcourse]
    exact List.mem_cons_self
  exact h.numbered _ (mem_course.1 hmem).1

/-- A poll of an answer. -/
theorem poll {i id : Nat} {started : Bool} {events : List Event} {slot : Slot}
    (hawaited : Awaited promises i id started) (hevents : ∀ e ∈ events, e = .start id ∨ e = .done id)
    (hslot : slot.Advances id started events) :
    Accounts api base left (news ++ events) (events.foldl Journal.record j) (promises.setIfInBounds i slot)
      tracked := by
  have hid : ∀ e ∈ events, e.id = id := fun e he => by rcases hevents e he with rfl | rfl <;> rfl
  have hbound : i < promises.size := (Array.getElem?_eq_some_iff.1 hawaited.choose_spec).1
  have hself : (promises.setIfInBounds i slot)[i]? = some slot := by simp [hbound]
  constructor
  case journal => rw [Journal.toList_recorded, h.journal, List.append_assoc]
  case numbered =>
    intro e he
    rw [Journal.calls_recorded hevents]
    rcases List.mem_append.1 he with he | he
    · exact h.numbered e he
    · rw [hid e he]
      exact h.awaited_lt hawaited
  case asked =>
    intro i' id' started' hawaited'
    rcases hawaited'.of_set with ⟨hold, hne⟩ | ⟨rfl, response, rfl⟩
    · rw [course_append_ne hid fun heq => hne (h.single hawaited (heq ▸ hold))]
      exact h.asked hold
    · obtain ⟨rfl, hopen⟩ := hslot
      obtain ⟨call, hasync, hcourse⟩ := h.asked hawaited
      refine ⟨call, hasync, ?_⟩
      rw [course_append, course_eq_self hid, hcourse, hopen]
  case single =>
    intro i₁ i₂ id' started₁ started₂ hawaited₁ hawaited₂
    rcases hawaited₁.of_set with ⟨hold₁, _⟩ | ⟨rfl, response₁, rfl⟩
    · rcases hawaited₂.of_set with ⟨hold₂, _⟩ | ⟨rfl, response₂, rfl⟩
      · exact h.single hold₁ hold₂
      · obtain ⟨rfl, _⟩ := hslot
        exact h.single hold₁ hawaited
    · obtain ⟨rfl, _⟩ := hslot
      rcases hawaited₂.of_set with ⟨hold₂, _⟩ | ⟨rfl, _⟩
      · exact h.single hawaited hold₂
      · rfl
  case known =>
    intro id' owner name args hcall
    have hmem : Event.call id' owner name args ∈ news := by
      rcases List.mem_append.1 hcall with hcall | hcall
      · exact hcall
      · rcases hevents _ hcall with heq | heq <;> cases heq
    by_cases heq : id' = id
    · subst heq
      obtain ⟨howner, f, hname, hasync, hcourse⟩ := h.known_awaited hawaited hmem
      refine ⟨howner, f, hname, ?_⟩
      cases slot with
      | host id'' started' response =>
          obtain ⟨rfl, _⟩ := hslot
          exact .inr ⟨hasync, i, started', response, hself⟩
      | settled outcome =>
          rw [course_append, course_eq_self hid, hcourse, hasync]
          exact .inl (hslot _)
      | _ => exact hslot.elim
    · rw [course_append_ne hid heq]
      obtain ⟨howner, f, hname, hcourse | ⟨hasync, i', started', hawaited'⟩⟩ := h.known hmem
      · exact ⟨howner, f, hname, .inl hcourse⟩
      · refine ⟨howner, f, hname, .inr ⟨hasync, i', started', (awaited_set_ne ?_).2 hawaited'⟩⟩
        rintro rfl
        obtain ⟨response, hold⟩ := hawaited
        obtain ⟨response', hold'⟩ := hawaited'
        cases hold.symm.trans hold'
        exact heq rfl
  case tracked =>
    intro i' id' started' hawaited'
    rcases hawaited'.of_set with ⟨hold, _⟩ | ⟨rfl, _⟩
    · exact h.tracked hold
    · exact h.tracked hawaited
  case waiting =>
    intro i' p resume hwaiting
    by_cases heq : i = i'
    · subst heq
      cases hself.symm.trans hwaiting
      exact hslot.elim
    · rw [Array.getElem?_setIfInBounds_ne heq] at hwaiting
      exact h.waiting hwaiting

/-! ## Other promises -/

/-- A promise that stands for no answer changes. -/
theorem set {i : Nat} {slot : Slot} (hold : ∀ id started, ¬Awaited promises i id started) (hslot : slot.Plain api) :
    Accounts api base left news j (promises.setIfInBounds i slot) tracked := by
  have hawaited : ∀ {i' id started}, Awaited (promises.setIfInBounds i slot) i' id started →
      Awaited promises i' id started := by
    intro i' id started hawaited
    rcases hawaited.of_set with ⟨hawaited, _⟩ | ⟨rfl, response, rfl⟩
    · exact hawaited
    · exact hslot.elim
  refine ⟨h.journal, h.numbered, fun ha => h.asked (hawaited ha), fun ha ha' => h.single (hawaited ha) (hawaited ha'),
    fun hcall => ?_, fun ha => h.tracked (hawaited ha), fun {i' p resume} hwaiting => ?_⟩
  · obtain ⟨howner, f, hname, hcourse | ⟨hasync, i', started, hawaited'⟩⟩ := h.known hcall
    · exact ⟨howner, f, hname, .inl hcourse⟩
    · refine ⟨howner, f, hname, .inr ⟨hasync, i', started, (awaited_set_ne ?_).2 hawaited'⟩⟩
      rintro rfl
      exact hold _ _ hawaited'
  · by_cases heq : i = i'
    · subst heq
      obtain ⟨_, heq⟩ := Array.getElem?_eq_some_iff.1 hwaiting
      rw [Array.getElem_setIfInBounds_self] at heq
      subst heq
      exact hslot
    · rw [Array.getElem?_setIfInBounds_ne heq] at hwaiting
      exact h.waiting hwaiting

/-- A new promise that stands for no answer. -/
theorem push {slot : Slot} (hslot : slot.Plain api) : Accounts api base left news j (promises.push slot) tracked := by
  have hawaited : ∀ {i id started}, Awaited (promises.push slot) i id started → Awaited promises i id started := by
    intro i id started hawaited
    rcases hawaited.of_push with hawaited | ⟨_, response, rfl⟩
    · exact hawaited
    · exact hslot.elim
  refine ⟨h.journal, h.numbered, fun ha => h.asked (hawaited ha), fun ha ha' => h.single (hawaited ha) (hawaited ha'),
    fun hcall => ?_, fun ha => h.tracked (hawaited ha), fun hwaiting => ?_⟩
  · obtain ⟨howner, f, hname, hcourse | ⟨hasync, i, started, hawaited⟩⟩ := h.known hcall
    · exact ⟨howner, f, hname, .inl hcourse⟩
    · exact ⟨howner, f, hname, .inr ⟨hasync, i, started, hawaited.push⟩⟩
  · rw [Array.getElem?_push] at hwaiting
    split at hwaiting
    · cases hwaiting
      exact hslot
    · exact h.waiting hwaiting

/-- A promise is remembered. -/
theorem track (p : PromiseRef) : Accounts api base left news j promises (tracked.push p) :=
  { h with tracked := fun hawaited => (h.tracked hawaited).imp_left (Array.mem_push_of_mem _) }

/-- The promises that are remembered are left to be settled. -/
theorem release (hleft : left = []) : Accounts api base tracked.toList news j promises #[] :=
  { h with
    tracked := fun hawaited => by
      rcases h.tracked hawaited with hp | hp
      · exact .inr (Array.mem_def.1 hp)
      · subst hleft
        cases hp }

end

/-- A promise that stands for no answer need not be left. -/
theorem discharge {p : PromiseRef} (h : Accounts api base (p :: left) news j promises tracked)
    (hp : ∀ id started, ¬Awaited promises p.index id started) : Accounts api base left news j promises tracked :=
  { h with
    tracked := fun {i id started} hawaited => by
      rcases h.tracked hawaited with hi | hi
      · exact .inl hi
      · rcases List.mem_cons.1 hi with rfl | hi
        · exact absurd hawaited (hp id started)
        · exact .inr hi }

/-- If no promise is left, every call has run its whole course. -/
theorem course_of_call {id owner : Nat} {args : List Json} (h : Accounts api base [] news j promises #[])
    (hcall : .call id owner name args ∈ news) : owner = api.owner ∧ ∃ f, api.get? name = some f ∧
      course news id = wholeCourse (.call id owner name args) id f.isAsync := by
  obtain ⟨howner, f, hname, hcourse | ⟨_, i, started, hawaited⟩⟩ := h.known hcall
  · exact ⟨howner, f, hname, hcourse⟩
  · rcases h.tracked hawaited with hi | hi
    · exact absurd hi (Array.not_mem_empty _)
    · cases hi

end Accounts

end FieldScript
