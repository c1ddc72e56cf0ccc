import FieldScript.Proofs.Eval.Bodies
import FieldScript.Proofs.Settle.Follow

/-!
# Settled bodies mean what was written

A body is run as it is written, against functions that answer at once. If this run returns a value, the
settled body returns the same value, run against the functions as they are.

* `Listening`: what has to be known about the calls of the two runs.
* `settled_returns`: both runs of a body without arrow functions, with direct calls of capabilities.
-/

namespace FieldScript

open Settle Walk

/-- A name that does not start like a temporary. -/
theorem Ordinary.of_head {name : String} (h : name.toList.head? ≠ some '_') : Ordinary name := by
  rintro k rfl
  exact h (by simp [temporaryName])

/-- How the journals of two runs against an interface are compared. If calls do not count, nothing may depend
on earlier calls. -/
structure Listening (api : Api) (counts : Bool) (hears : Journal → Journal → Prop) : Prop where
  same : ∀ j, hears j j
  deaf : counts = false → ∀ j s, hears j s
  call : ∀ {j s : Journal}, hears j s → ∀ (id id' : Nat) (name : String) (documents : List Json),
    hears (j.record (.call id api.owner name documents)) (s.record (.call id' api.owner name documents))
  answer : ∀ {j s : Journal}, hears j s → ∀ {name : String} {f : HostFunction}, api.get? name = some f →
    ∀ documents : List Json, (f.respond (j.callsOf api.owner name) documents).result =
      (f.respond (s.callsOf api.owner name) documents).result
  wait : ∀ {j s : Journal}, hears j s → ∀ id : Nat, hears j ((s.record (.start id)).record (.done id))

/-- Functions that do not answer at once are marked as asynchronous. -/
def Api.Marked (api : Api) (capabilities : Capabilities) : Prop :=
  ∀ {name : String} {f : HostFunction}, api.get? name = some f → f.isAsync = true → capabilities.isAsync name = true

namespace Listening

variable {api : Api} {counts : Bool} {hears : Journal → Journal → Prop} {capabilities : Capabilities}

/-- The two runs rely on what is known about their journals and on the variables of the first run. -/
theorem lawful (h : Listening api counts hears) (hmarked : api.Marked capabilities) {args : List String}
    {data : ObjectRef} {env : Scope} {frames : Array (List (String × Binding))} {fuel : Nat}
    (hbound : ∀ {name : String} {b : Binding},
      Scene.binding? ⟨⟨capabilities, api, args, data⟩, env, frames, fuel, hears⟩ name = some b →
        capabilities.contains name = false ∧ b.constant = true ∧ ∃ ref, b.value = .function (.closure ref)) :
    Scene.Lawful ⟨⟨capabilities, api, args, data⟩, env, frames, fuel, hears⟩ counts where
  deaf := h.deaf
  call := h.call
  answer := h.answer
  wait := h.wait
  marked := hmarked
  constant hb := (hbound hb).2.1
  plain hb := by
    obtain ⟨-, -, ref, hvalue⟩ := hbound hb
    rw [hvalue]
    exact ⟨rfl, rfl⟩
  unshadowed {name} hname := by
    cases hb : Scene.binding? ⟨⟨capabilities, api, args, data⟩, env, frames, fuel, hears⟩ name with
    | none => rfl
    | some b => cases hname.symm.trans (hbound hb).1

end Listening

/-! ## The walk through a body -/

/-- What a body becomes, and the names that it needs. -/
theorem Settle.visited_follow (cmp : Comparison) (body : Expr) (h : cmp.Admits body.nodes) :
    ∃ n D e', (visited body cmp.caps cmp.scene.setting.args).1 = D ++ [Stmt.return (some e') body.span] ∧
      FollowsValue cmp body e' 0 n D ∧ ∀ name ∈ needed body cmp.caps cmp.scene.setting.args,
        cmp.known name ∧ cmp.caps.contains name = false ∧ cmp.scene.setting.args.contains name = false := by
  have hwalk : Ensures (inScope (statement (returning body))) cmp.outside State.start fun outs s' =>
      ∃ n D e', outs = D ++ [Stmt.return (some e') body.span] ∧ FollowsValue cmp body e' 0 n D ∧
        ∀ name ∈ s'.helpers, cmp.known name ∧ cmp.caps.contains name = false ∧
          cmp.scene.setting.args.contains name = false := by
    refine inScope_ensures ?_
    rw [returning, statement_return]
    refine placed_ensures (Ensures.bind (inPlace_follow (expr_follow cmp body h) _ fun _ => rfl) ?_)
    rintro e' s' ⟨D, hwalked, hfollows⟩
    refine Ensures.pure ⟨s'.temporaries, D, e', by rw [hwalked.hoisted]; rfl, hfollows, fun name hname => ?_⟩
    exact (hwalked.noted name hname).resolve_left List.not_mem_nil
  obtain ⟨n, D, e', houts, hfollows, hnoted⟩ := hwalk
  refine ⟨n, D, e', houts, hfollows, fun name hname => hnoted name ?_⟩
  have hmem := (List.mem_filter.1 hname).2
  exact List.contains_iff_mem.1 hmem

/-! ## Both runs -/

/-- A body without arrow functions whose calls are direct calls of capabilities, in the order in which they are
written. If it returns a value as it is written, against functions that answer at once, the settled body returns
the same value, given enough steps, and the two runs make calls that cannot be told apart. -/
theorem settled_returns {body : Expr} {capabilities : Capabilities} {api : Api} {counts : Bool}
    {hears : Journal → Journal → Prop} {known : String → Prop} (hlisten : Listening api counts hears)
    (hmarked : api.Marked capabilities) (hordinary : ∀ {name : String}, known name → Ordinary name)
    (hdirect : ∀ node ∈ body.nodes, node.IsDirect capabilities known)
    (hordered : (body.shape capabilities counts).ordered = true) (args : List String) :
    ∃ helpers stmts : List Stmt,
      (∀ d ∈ helpers, ∃ name, known name ∧ capabilities.contains name = false ∧ args.contains name = false ∧
        Prelude.declaration name = .ok d) ∧
      written body capabilities args = .ok (.mk (helpers ++ [returning body]) body.span) ∧
      settle body capabilities args = .ok (.mk (helpers ++ stmts) body.span) ∧
      ∀ {fuel : Nat} {data : Json} {journal journal' : Journal} {j : Json},
        invoke fuel capabilities api.synchronous args (.mk (helpers ++ [returning body]) body.span) data journal =
          .ok ⟨.ok j, journal'⟩ →
        ∃ journal'', hears journal' journal'' ∧ ∃ steps, ∀ fuel' ≥ steps,
          invoke fuel' capabilities api args (.mk (helpers ++ stmts) body.span) data journal =
            .ok ⟨.ok j, journal''⟩ := by
  obtain ⟨helpers, hhelpers, hwritten, hsettle⟩ := settle_written body capabilities args
  -- the names that the walk notes do not depend on the variables of a run
  have hneeded : ∀ name ∈ needed body capabilities args, known name ∧ capabilities.contains name = false ∧
      args.contains name = false := by
    obtain ⟨-, -, -, -, -, hnoted⟩ := visited_follow
      ⟨⟨⟨capabilities, api, args, ⟨0⟩⟩, [], #[], 0, hears⟩, counts, hlisten.lawful hmarked nofun, known, hordinary⟩
      body hdirect
    exact hnoted
  refine ⟨helpers, _, fun d hd => ?_, hwritten, hsettle, ?_⟩
  · obtain ⟨name, hname, hdeclaration, -⟩ := hhelpers d hd
    obtain ⟨hknown, hcap, harg⟩ := hneeded name hname
    exact ⟨name, hknown, hcap, harg, hdeclaration⟩
  intro fuel data journal journal' j hreference
  obtain ⟨hclosed, hframes, -, hdata⟩ := Store.start_spec data journal
  obtain ⟨T, hfurnished, hrun⟩ := Eval.stmts_functions (· ∈ needed body capabilities args) (f := ⟨1⟩) (σ := [⟨0⟩])
    (Store.opened_bounds (Store.start data journal).2 _ List.mem_cons_self)
    fun d hd => (hhelpers d hd).imp fun name h => ⟨h.1, h.2.2⟩
  let scene : Scene := ⟨⟨capabilities, api, args, (Store.start data journal).1⟩, Scope.body, T.frames, fuel, hears⟩
  have hlawful : scene.Lawful counts := by
    refine hlisten.lawful hmarked fun {name b} hb => ?_
    have hfind : Scope.find? T name Scope.body = some b := (Scope.find?_congr rfl name Scope.body).trans hb
    rcases hfurnished.bound hfind with hnone | ⟨hname, hconstant, hfunction⟩
    · cases hnone
    · exact ⟨(hneeded name hname).2.1, hconstant, hfunction⟩
  have hsound : scene.Sound T :=
    ⟨rfl, hfurnished.closed (hclosed.extend ⟨id, id⟩ ⟨id, id⟩), hfurnished.extended.within _ hdata⟩
  have hat : scene.At T T.journal T.self T scene.env := by
    refine hsound.at (hlisten.same _) nofun fun f hf => ?_
    rw [hfurnished.frames]
    exact Store.opened_bounds _ f hf
  obtain ⟨n, D, e', houts, hfollows, -⟩ := visited_follow ⟨scene, counts, hlawful, known, hordinary⟩ body hdirect
  obtain ⟨r, T', hfirst, hsecond⟩ := Scene.Yields.returns hfollows hordered hsound hat body.span
  have hbody : scene.reference.runBody (.mk (helpers ++ [returning body]) body.span) (Store.start data journal).2 =
      .done r T' := Scene.returns_reference hframes rfl hrun hfirst fun v hv => (hsecond v hv).1
  obtain ⟨v, rfl, hdocument, rfl⟩ := exists_value_of_invoke hbody hreference
  obtain ⟨-, β, S', w, hat', hlike, hreaches⟩ := hsecond v rfl
  refine ⟨S'.journal, hat'.hears, ?_⟩
  refine invoke_of_reaches scene rfl ?_ (hat'.heap.document_eq hlike hdocument)
  have hstmts : (visited body capabilities args).1 = D ++ [Stmt.return (some e') body.span] := houts
  rw [hstmts]
  exact Scene.returns_settled hframes rfl hrun hreaches hlike

end FieldScript
