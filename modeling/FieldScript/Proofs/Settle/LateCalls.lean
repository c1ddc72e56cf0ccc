import FieldScript.Host.Script
import FieldScript.Proofs.Eval.Settlement
import FieldScript.Proofs.Settle.CallOrder

/-!
# Calls that nobody awaits

An invocation is over only when every call of an asynchronous function has been started and is done, whether or not
the body awaited it and whether or not the body failed. The outcome of the body is fixed before that. But it is
written out afterwards, so it shows what a late call has put into an array or an object.

* `lateWrite_shows`: the answer is not the one that the body had when it ended.
* `invoke_settles`: every call has run its course, and the answer is that of the outcome that the body ended with.
-/

namespace FieldScript

variable {capabilities : Capabilities} {api : Api} {args : List String} {body : Block} {data : Json}
  {journal : Journal} {fuel : Nat}

/-- What an invocation runs against. -/
def Setting.ofData (capabilities : Capabilities) (api : Api) (args : List String) (data : Json) (journal : Journal) :
    Setting := ⟨capabilities, api, args, (Store.start data journal).1⟩

/-- The scheduler of an invocation. -/
def Setting.scheduler (c : Setting) (fuel : Nat) : Scheduler := FieldScript.scheduler (c.context fuel).runJob fuel

/-- A run of a body up to its end. -/
def Setting.runToEnd (c : Setting) (fuel : Nat) (body : Block) (s : Store) :
    Except Abort (Except Raised Value × World) :=
  ((c.scheduler fuel).finish fuel ((c.context fuel).runBody body s)).run ⟨s, #[], #[]⟩

/-! ## Answers that change -/

/-- The body `(["b"].forEach(x => { o.x = post("a"); }), o)`. -/
def lateWrite : Expr :=
  .sequence [
    .call (accessTree (.array [.expr (textTree "b")] (.point 0)) "forEach")
      [.expr (.arrow [.ident ⟨"x", .point 0⟩]
        (.block (.mk [.expr (.assign .assign (.member (accessTree (nameTree "o") "x"))
          (callTree "post" (textTree "a")) (.point 0)) (.point 0)] (.point 0))) false (.point 0))] false (.point 0),
    nameTree "o"] (.point 0)

/-- An asynchronous function `post` that answers its argument when it is asked a second time. -/
def slowPost : Api := ⟨0, [("post", Script.echo.toFunction true 1)]⟩

/-- The names of the members of an answer that is an object. -/
def memberNames (answer : Except Abort Answer) : Option (List String) :=
  match answer with
  | .ok (.ok (.object members)) => some (members.map (·.1))
  | _ => none

/-- The answer of an invocation shows what a call did that nobody awaited. -/
theorem lateWrite_shows :
    ((settle lateWrite ⟨[("post", true)]⟩ ["o"]).toOption.map fun block =>
      (memberNames (do
        let (result, w) ← (Setting.ofData ⟨[("post", true)]⟩ slowPost ["o"] (.object [("o", .object [])])
          Journal.empty).runToEnd defaultFuel block (Store.start (.object [("o", .object [])]) Journal.empty).2
        w.store.answer result),
      memberNames (do
        return (← invoke defaultFuel ⟨[("post", true)]⟩ slowPost ["o"] block (.object [("o", .object [])])
          Journal.empty).answer))) = some (some [], some ["x"]) := by
  decide +kernel

/-! ## Answers that stay -/

/-- Whether an outcome is no array and no object, so that there is nothing about it that could change. -/
def isFlat : Except Raised Value → Bool
  | .ok v => !v.isCompound
  | .error (.thrown v) => !v.isCompound
  | .error _ => true

namespace Store

theorem document?_flat {v : Value} (h : v.isCompound = false) (s t : Store) : s.document? v = t.document? v := by
  refine documentOf?_flat (fun a hv => ?_) (fun o hv => ?_) _ _
  · subst hv
    cases h
  · subst hv
    cases h

/-- The document of a new error does not depend on what else there is. -/
theorem document?_newError (name message : String) (s : Store) :
    ((Change.newError name message).run s).2.document? ((Change.newError name message).run s).1 =
      .ok (some (.object [("name", .string name), ("message", .string message)])) := by
  unfold document?
  show documentOf? _ (s.arrays.size + (s.objects.push _).size + 1) (.object ⟨s.objects.size⟩) = _
  refine documentOf?_object.2 ⟨[some ("name", .string name), some ("message", .string message)], ?_, rfl⟩
  have hentries : (s.addObject [("name", Value.string name), ("message", .string message)]).2.object ⟨s.objects.size⟩ =
      [("name", .string name), ("message", .string message)] := object_addObject s _
  have hmember : ∀ (t : Store) (d : Nat) (key text : String),
      t.memberDocument d (key, .string text) = .ok (some (key, .string text)) := fun t d key text => by
    simp only [memberDocument, documentOf?]
    rfl
  exact (congrArg _ hentries).trans (by simp [hmember, List.mapM_cons, bind, Except.bind, pure, Except.pure])

/-- The message of an error that was not thrown by the body does not depend on what else there is. -/
theorem faultMessage_newError {r : Raised} {name message : String}
    (h : Change.raisedValue r = Change.newError name message) (s : Store) :
    s.faultMessage r = .ok (Json.object [("name", .string name), ("message", .string message)]).render := by
  unfold faultMessage
  rw [h]
  show (document? ((Change.newError name message).run s).2 ((Change.newError name message).run s).1 >>= _) = _
  rw [document?_newError]
  rfl

/-- The answer of a flat outcome is the same in every store. -/
theorem answer_flat {result : Except Raised Value} (h : isFlat result = true) (s t : Store) :
    s.answer result = t.answer result := by
  rcases result with r | v
  · have hmessage : s.faultMessage r = t.faultMessage r := by
      cases r with
      | thrown v =>
          have hv : v.isCompound = false := by simpa [isFlat] using h
          show (s.document? v >>= _) = (t.document? v >>= _)
          rw [document?_flat hv s t]
      | type fault => rw [faultMessage_newError rfl, faultMessage_newError rfl]
      | unbound name => rw [faultMessage_newError rfl, faultMessage_newError rfl]
      | range fault => rw [faultMessage_newError rfl, faultMessage_newError rfl]
    unfold answer
    dsimp only
    rw [hmessage]
  · have hv : v.isCompound = false := by simpa [isFlat] using h
    unfold answer document
    dsimp only
    rw [document?_flat hv s t]

end Store

/-! ## Every call runs its course -/

/-- If an invocation returns, then every call it made to an asynchronous function was started once and then done
once, after the call and before the invocation returned; a call to any other function was answered on the spot. And
the answer is that of the outcome with which the body ended, written out when nothing was left over: if the outcome
is no array and no object, that is what it was when the body ended. -/
theorem invoke_settles {invocation : Invocation}
    (h : invoke fuel capabilities api args body data journal = .ok invocation) :
    (∃ news, invocation.journal.events.toList = journal.events.toList ++ news ∧
      ∀ id owner name args, .call id owner name args ∈ news → owner = api.owner ∧ ∃ f, api.get? name = some f ∧
        course news id = wholeCourse (.call id owner name args) id f.isAsync) ∧
    ∃ result w w', (Setting.ofData capabilities api args data journal).runToEnd fuel body
        (Store.start data journal).2 = .ok (result, w) ∧
      (((Setting.ofData capabilities api args data journal).scheduler fuel).drain fuel fuel).Steps w () w' ∧
      w'.store.answer result = .ok invocation.answer ∧
      (isFlat result = true → w.store.answer result = .ok invocation.answer) := by
  obtain ⟨answer, journal'⟩ := invocation
  obtain ⟨result, t, hrun, hanswer, rfl⟩ := invoke_ok.1 h
  have horderly : ((Setting.ofData capabilities api args data journal).context fuel).Orderly api :=
    (Setting.ofData capabilities api args data journal).context_orderly fuel
  refine ⟨?_, ?_⟩
  · obtain ⟨news, promises, haccounts⟩ := Comp.run_accounts (Context.runJob_orderly horderly)
      (Context.runBody_orderly horderly body) hrun
    refine ⟨news, ?_, fun id owner name args hcall => haccounts.course_of_call hcall⟩
    rw [haccounts.journal, (Store.start_spec data journal).2.2.1]
  · obtain ⟨w, w', hfinish, hdrain, rfl⟩ := Comp.run_ok.1 hrun
    exact ⟨result, w, w', hfinish, hdrain, hanswer, fun hflat => (Store.answer_flat hflat _ _).trans hanswer⟩

/-- The late call of `lateWrite` has run its course when the invocation returns. -/
theorem lateWrite_settles : ∃ block invocation, settle lateWrite ⟨[("post", true)]⟩ ["o"] = .ok block ∧
    invoke defaultFuel ⟨[("post", true)]⟩ slowPost ["o"] block (.object [("o", .object [])]) Journal.empty =
      .ok invocation ∧
    ∃ news, invocation.journal.events.toList = news ∧
      ∀ id owner name args, .call id owner name args ∈ news → owner = 0 ∧ ∃ f, slowPost.get? name = some f ∧
        course news id = wholeCourse (.call id owner name args) id f.isAsync := by
  have hruns : (settle lateWrite ⟨[("post", true)]⟩ ["o"]).toOption.any (fun block => (invoke defaultFuel
      ⟨[("post", true)]⟩ slowPost ["o"] block (.object [("o", .object [])]) Journal.empty).toOption.isSome) = true := by
    decide +kernel
  cases hsettle : settle lateWrite ⟨[("post", true)]⟩ ["o"] with
  | error e =>
      rw [hsettle] at hruns
      cases hruns
  | ok block =>
      rw [hsettle] at hruns
      cases hinvoke : invoke defaultFuel ⟨[("post", true)]⟩ slowPost ["o"] block (.object [("o", .object [])])
        Journal.empty with
      | error e =>
          have hsome : (invoke defaultFuel ⟨[("post", true)]⟩ slowPost ["o"] block (.object [("o", .object [])])
            Journal.empty).toOption.isSome = true := hruns
          rw [hinvoke] at hsome
          cases hsome
      | ok invocation => exact ⟨block, invocation, rfl, hinvoke, (invoke_settles hinvoke).1⟩

end FieldScript
