import FieldScript.Proofs.Settle.Meaning
import FieldScript.Validate

/-!
# The order of calls

A call that moves in front of its statement overtakes what stands to the left of it. The calls of a settled body
are those of the body as it is written, in the same order, if the shape of the body is `ordered`: what is
overtaken neither makes a call nor changes anything, and nothing moves out of a position that evaluation may skip
or repeat.

* `Journal.requests`: the calls of a run, without the moments at which answers come.
* `settle_keeps_call_order`: the calls and the answer of a body in order.
* `calls_differ`: what happens without one of the conditions.
* `helper_uses_pending`: a function of the prelude meets the answer of an asynchronous function before it is there.
* `callback_stays_pending`: an asynchronous function that is handed on is called without an `await`.
-/

namespace FieldScript

open Settle (returning)

/-- The call that an event is: whose function is called, its name, and the arguments. -/
def Event.request? : Event → Option (Nat × String × List Json)
  | .call _ owner name args => some (owner, name, args)
  | .start _ | .done _ => none

/-- The external calls in a journal. -/
def Journal.requests (j : Journal) : List (Nat × String × List Json) := j.events.toList.filterMap Event.request?

namespace Journal

theorem requests_record_call (j : Journal) (id owner : Nat) (name : String) (args : List Json) :
    (j.record (.call id owner name args)).requests = j.requests ++ [(owner, name, args)] := by
  simp [requests, record, Event.request?]

theorem requests_record_start (j : Journal) (id : Nat) : (j.record (.start id)).requests = j.requests := by
  simp [requests, record, Event.request?]

theorem requests_record_done (j : Journal) (id : Nat) : (j.record (.done id)).requests = j.requests := by
  simp [requests, record, Event.request?]

/-- How often a function was called can be seen from the calls. -/
theorem callsOf_eq_countP (j : Journal) (owner : Nat) (name : String) :
    j.callsOf owner name = j.requests.countP fun r => r.1 = owner && r.2.1 = name := by
  have hfold : ∀ f : Nat → Event → Nat,
      (∀ n id o m args, f n (.call id o m args) = if o = owner && m = name then n + 1 else n) →
      (∀ n id, f n (.start id) = n) → (∀ n id, f n (.done id) = n) → ∀ (events : List Event) (n : Nat),
      events.foldl f n = n + (events.filterMap Event.request?).countP fun r => r.1 = owner && r.2.1 = name := by
    intro f hcall hstart hdone events
    induction events with
    | nil => simp
    | cons e events ih =>
        intro n
        rw [List.foldl_cons, ih]
        cases e with
        | call id o m args =>
            rw [hcall]
            by_cases hsame : (decide (o = owner) && decide (m = name)) = true
            · simp only [hsame, if_true, List.filterMap_cons, Event.request?, List.countP_cons]
              omega
            · simp [hsame, Event.request?]
        | start id =>
            rw [hstart]
            rfl
        | done id =>
            rw [hdone]
            rfl
  unfold callsOf requests
  rw [← Array.foldl_toList]
  exact (hfold _ (fun _ _ _ _ _ => rfl) (fun _ _ => rfl) (fun _ _ => rfl) j.events.toList 0).trans (Nat.zero_add _)

end Journal

/-- Runs whose calls are the same. -/
theorem Listening.requests (api : Api) : Listening api true fun j s => j.requests = s.requests where
  same _ := rfl
  deaf h := nomatch h
  call h id id' name documents := by
    rw [Journal.requests_record_call, Journal.requests_record_call, h]
  answer h name f _ documents := by
    rw [Journal.callsOf_eq_countP, Journal.callsOf_eq_countP, h]
  wait h id := by
    rw [Journal.requests_record_done, Journal.requests_record_start, h]

/-! ## Bodies whose calls differ -/

/-- The name `x`. -/
def nameTree (x : String) : Expr := .identifier x (.point 0)

/-- The call `f(e)`. -/
def callTree (f : String) (e : Expr) : Expr := .call (nameTree f) [.expr e] false (.point 0)

/-- The member access `e.x`. -/
def accessTree (e : Expr) (x : String) : Expr := .member e (.name ⟨x, .point 0⟩) false (.point 0)

/-- The text `t`. -/
def textTree (t : String) : Expr := .literal ⟨.string t, t⟩ (.point 0)

/-- The array `[e, f]`. -/
def pairTree (e f : Expr) : Expr := .array [.expr e, .expr f] (.point 0)

/-- Asynchronous functions `get` and `post`, which answer a text and an object. -/
def getAndPost : Api :=
  ⟨0, [("get", ⟨true, fun _ _ => ⟨.ok (.string "v"), 0⟩⟩),
    ("post", ⟨true, fun _ _ => ⟨.ok (.object [("x", .string "w")]), 0⟩⟩)]⟩

/-- The names of the functions that a run calls, and the arguments that are texts. -/
def calledWith (run : Except Abort Invocation) : Option (List (String × List (Option String))) :=
  run.toOption.map fun i => i.journal.requests.map fun r => (r.2.1, r.2.2.map fun j => match j with
    | .string t => some t
    | _ => none)

/-- The calls of a body as it is written, with functions that answer at once, and of the settled body. -/
def bothCalls (body : Expr) (capabilities : Capabilities) (args : List String) (data : Json) :
    Option (List (String × List (Option String))) × Option (List (String × List (Option String))) :=
  ((written body capabilities args).toOption.bind fun block => calledWith
      (invoke defaultFuel capabilities getAndPost.synchronous args block data Journal.empty),
    (settle body capabilities args).toOption.bind fun block => calledWith
      (invoke defaultFuel capabilities getAndPost args block data Journal.empty))

/-- A call in a temporary overtakes the call to the left of it, and it is made even if something to the left of it
fails. A name like that of the temporary gets its value, and an answer that nothing marks as asynchronous is not
waited for. -/
theorem calls_differ :
    bothCalls (pairTree (callTree "get" (textTree "a")) (accessTree (callTree "post" (textTree "b")) "x"))
        ⟨[("get", true), ("post", true)]⟩ [] .null =
      (some [("get", [some "a"]), ("post", [some "b"])], some [("post", [some "b"]), ("get", [some "a"])]) ∧
    bothCalls (pairTree (accessTree (.literal ⟨.null, "null"⟩ (.point 0)) "x")
        (accessTree (callTree "post" (textTree "b")) "x")) ⟨[("post", true)]⟩ [] .null =
      (some [], some [("post", [some "b"])]) ∧
    bothCalls (pairTree (accessTree (callTree "post" (textTree "b")) "x") (callTree "get" (nameTree "_0")))
        ⟨[("get", true), ("post", true)]⟩ ["_0"] (.object [("_0", .string "a")]) =
      (some [("post", [some "b"]), ("get", [some "a"])], some [("post", [some "b"]), ("get", [none])]) ∧
    bothCalls (accessTree (callTree "post" (callTree "get" (textTree "a"))) "x")
        ⟨[("get", false), ("post", true)]⟩ [] .null =
      (some [("get", [some "a"]), ("post", [some "v"])], some [("get", [some "a"]), ("post", [none])]) := by
  refine ⟨?_, ?_, ?_, ?_⟩
  all_goals decide +kernel

/-! ## Bodies in order -/

/-- A body without arrow functions whose calls are direct calls of capabilities, whose names are no temporaries,
and which is in order, against functions that are marked if they are asynchronous. If the body returns a document
as it is written, with functions that answer at once, then the settled body returns the same document, given
enough steps, and makes the same calls with the same arguments in the same order. -/
theorem settle_keeps_call_order (body : Expr) (capabilities : Capabilities) (args : List String) (api : Api)
    (hdirect : ∀ node ∈ body.nodes, node.IsDirect capabilities Ordinary)
    (hordered : (body.shape capabilities true).ordered = true) (hmarked : api.Marked capabilities) :
    ∃ reference block, written body capabilities args = .ok reference ∧ settle body capabilities args = .ok block ∧
      ∀ (fuel : Nat) (data : Json) (journal journal' : Journal) (j : Json),
        invoke fuel capabilities api.synchronous args reference data journal = .ok ⟨.ok j, journal'⟩ →
        ∃ journal'', journal''.requests = journal'.requests ∧ ∃ steps, ∀ fuel' ≥ steps,
          invoke fuel' capabilities api args block data journal = .ok ⟨.ok j, journal''⟩ := by
  obtain ⟨helpers, stmts, -, hwritten, hsettle, hruns⟩ := settled_returns (Listening.requests api) hmarked id hdirect
    hordered args
  refine ⟨_, _, hwritten, hsettle, fun fuel data journal journal' j hreference => ?_⟩
  obtain ⟨journal'', hrequests, hsteps⟩ := hruns hreference
  exact ⟨journal'', hrequests.symm, hsteps⟩

/-- The body `[post("b").x, get("a")]`. -/
def laterCall : Expr :=
  pairTree (accessTree (callTree "post" (textTree "b")) "x") (callTree "get" (textTree "a"))

/-- It is in order: the call in the temporary comes first anyway. -/
theorem laterCall_keeps_order :
    (laterCall.shape ⟨[("get", true), ("post", true)]⟩ true).ordered = true ∧
      ∃ block, settle laterCall ⟨[("get", true), ("post", true)]⟩ [] = .ok block ∧ ∃ journal,
        journal.requests = [(0, "post", [.string "b"]), (0, "get", [.string "a"])] ∧ ∃ steps, ∀ fuel ≥ steps,
          invoke fuel ⟨[("get", true), ("post", true)]⟩ getAndPost [] block .null Journal.empty =
            .ok ⟨.ok (.array [.string "w", .string "v"]), journal⟩ := by
  have hdirect : ∀ node ∈ laterCall.nodes, node.IsDirect ⟨[("get", true), ("post", true)]⟩ Ordinary := by
    have hget : Ordinary "get" := .of_head (by decide)
    have hpost : Ordinary "post" := .of_head (by decide)
    simp [laterCall, pairTree, accessTree, callTree, textTree, nameTree, Expr.nodes, Node.ofExpr, Node.ofItems,
      Node.ofKey, Node.IsDirect, Capabilities.contains, hget, hpost]
  have hmarked : getAndPost.Marked ⟨[("get", true), ("post", true)]⟩ := by
    intro name f hf _
    simp only [Api.get?, getAndPost, List.lookup_cons, List.lookup_nil] at hf
    split at hf
    · rename_i hname
      rw [beq_iff_eq.1 hname]
      rfl
    · split at hf
      · rename_i hname
        rw [beq_iff_eq.1 hname]
        rfl
      · cases hf
  have hordered : (laterCall.shape ⟨[("get", true), ("post", true)]⟩ true).ordered = true := by decide
  obtain ⟨reference, block, hwritten, hsettle, hruns⟩ :=
    settle_keeps_call_order laterCall _ [] getAndPost hdirect hordered hmarked
  refine ⟨hordered, block, hsettle, ?_⟩
  have hblock : written laterCall ⟨[("get", true), ("post", true)]⟩ [] = .ok (.mk [returning laterCall] (.point 0)) := by
    rfl
  cases hblock.symm.trans hwritten
  have hrun : ∃ journal, journal.requests = [(0, "post", [.string "b"]), (0, "get", [.string "a"])] ∧
     invoke 1 ⟨[("get", true), ("post", true)]⟩ getAndPost.synchronous [] (.mk [returning laterCall] (.point 0)) .null Journal.empty =
            .ok ⟨.ok (.array [.string "w", .string "v"]), journal⟩ := by
     refine ⟨⟨#[.call 0 0 "post" [.string "b"], .call 1 0 "get" [.string "a"]]⟩, rfl, ?_⟩
     rfl
  obtain ⟨journal', hcalls, hrun⟩ := hrun
  obtain ⟨journal, hrequests, hsteps⟩ := hruns 1 .null Journal.empty _ (.array [.string "w", .string "v"]) hrun
  exact ⟨journal, hrequests.trans hcalls, hsteps⟩

/-! ## Answers that are awaited in place -/

/-- The text that a run answers. -/
def answeredText (run : Except Abort Invocation) : Option String :=
  run.toOption.bind fun i => match i.answer with
    | .ok (.string t) => some t
    | _ => none

/-- The body `cq("u", { a: "b" })`. -/
def queryBody : Expr :=
  .call (nameTree "cq") [.expr (textTree "u"),
    .expr (.object [.init (.name ⟨"a", .point 0⟩) (textTree "b") false (.point 0)] (.point 0))] false (.point 0)

/-- An asynchronous function with the name of a global one. -/
def encoder : Api := ⟨0, [("encodeURIComponent", ⟨true, fun _ _ => ⟨.ok (.string "v"), 0⟩⟩)]⟩

theorem queryBody_needed : Settle.needed queryBody ⟨[("encodeURIComponent", true)]⟩ [] = ["cq"] := by decide

/-- The function `cq` of the prelude calls `encodeURIComponent`. If that is an asynchronous capability, its answer
is used while it is pending. -/
theorem helper_uses_pending :
    (queryBody.validate ⟨[("encodeURIComponent", true)]⟩ [] false).toOption = some () ∧
    ((written queryBody ⟨[("encodeURIComponent", true)]⟩ []).toOption.bind fun block => answeredText
      (invoke defaultFuel ⟨[("encodeURIComponent", true)]⟩ encoder.synchronous [] block .null Journal.empty)) =
        some "u?v=v" ∧
    ((settle queryBody ⟨[("encodeURIComponent", true)]⟩ []).toOption.bind fun block => answeredText
      (invoke defaultFuel ⟨[("encodeURIComponent", true)]⟩ encoder [] block .null Journal.empty)) =
        some "u?[object Promise]=[object Promise]" := by
  have hcq := Prelude.declaration_of_lines (rfl : Prelude.source? "cq" = _)
  refine ⟨by decide +kernel, ?_, ?_⟩
  · rw [written, queryBody_needed, List.mapM_cons, List.mapM_nil, hcq]
    decide +kernel
  · rw [settle_eq, queryBody_needed, List.mapM_cons, List.mapM_nil, hcq]
    decide +kernel

/-- The body `["a"].map(get)`. -/
def mapped : Expr :=
  .call (accessTree (.array [.expr (textTree "a")] (.point 0)) "map") [.expr (nameTree "get")] false (.point 0)

/-- Whether a run answers an array of one object without entries. -/
def answersEmptyObject (run : Except Abort Invocation) : Bool :=
  match run with
  | .ok ⟨.ok (.array [.object []]), _⟩ => true
  | _ => false

/-- The promise that an asynchronous function answers to a method of arrays ends up in the answer. -/
theorem callback_stays_pending :
    (mapped.validate ⟨[("get", true)]⟩ [] false).toOption = some () ∧
    ((settle mapped ⟨[("get", true)]⟩ []).toOption.any fun block => answersEmptyObject
      (invoke defaultFuel ⟨[("get", true)]⟩ getAndPost [] block .null Journal.empty)) = true := by
  refine ⟨?_, ?_⟩
  all_goals decide

end FieldScript
