import FieldScript.Proofs.Settle.Awaited
import FieldScript.Proofs.Settle.Marks
import FieldScript.Proofs.Syntax.Legible
import FieldScript.Proofs.Syntax.Mentions

/-!
# Functions of the prelude in front of a body

A settled body starts with declarations of those functions of the prelude whose names occur in it and mean
nothing else. The same declarations in front of the body as it was written make a block that can be run as
well (`written`).

* `Prelude.declares_all`: every function of the prelude is a constant arrow function under its own name, written
  without statements and without names like those of temporaries.
* `settle_written`: a settled body and the body as it was written start with the same declarations.
-/

namespace FieldScript

/-- A statement that declares a constant arrow function under a name, without anything asynchronous. -/
def Stmt.isFunction (name : String) (s : Stmt) : Bool :=
  match s with
  | .declare (.mk .const [.mk (.ident id) (some (.arrow _ _ false _)) _] _) _ =>
    id.name == name && (Node.ofStmt s).all Node.isSynchronous
  | _ => false

theorem Stmt.exists_of_isFunction {name : String} {s : Stmt} (h : s.isFunction name = true) :
    ∃ ispan ps body aspan dspan vspan span, s = .declare (.mk .const
      [.mk (.ident ⟨name, ispan⟩) (some (.arrow ps body false aspan)) dspan] vspan) span := by
  unfold isFunction at h
  split at h
  · rename_i id ps body aspan dspan vspan span
    obtain ⟨other, ispan⟩ := id
    simp only [Bool.and_eq_true, beq_iff_eq] at h
    rw [← h.1]
    exact ⟨ispan, ps, body, aspan, dspan, vspan, span, rfl⟩
  · cases h

theorem Stmt.isSynchronous_of_isFunction {name : String} {s : Stmt} (h : s.isFunction name = true) :
    (Node.ofStmt s).all Node.isSynchronous = true := by
  unfold isFunction at h
  split at h
  · simp only [Bool.and_eq_true] at h
    exact h.2
  · cases h

/-- Whether a leaf has a name like a temporary. -/
def Leaf.isTemporary (leaf : Leaf) : Bool := leaf.name?.any isTemporaryName

/-- What the passes over a body rely on in a declaration in front of it. -/
def Stmt.isHelper (name : String) (s : Stmt) : Bool :=
  s.isFunction name && (Node.ofStmt s).tail.all Node.isInline &&
    ((Census.ofStmt true s).count Leaf.isTemporary == 0 &&
      (Mentions.ofStmt s).countP (isTemporaryName ·.name) == 0)

/-- A constant function under a name, read from the characters of its text. -/
def Prelude.readFrom (name : String) (chars : List Char) : Except GenerateFault Stmt :=
  match (Source.mk chars).expr with
  | .error cause => .error (.unreadableHelper name cause)
  | .ok init =>
    let span := Span.point 0
    .ok (.declare (.mk .const [.mk (.ident ⟨name, span⟩) (some init) span] span) span)

/-- A text in three lines is read from their characters. -/
theorem Prelude.declaration_of_lines {name : String} {a b c : List Char}
    (h : Prelude.source? name = some (String.ofList a ++ String.ofList b ++ String.ofList c)) :
    Prelude.declaration name = Prelude.readFrom name (a ++ b ++ c) := by
  have hsource : Source.ofString (String.ofList a ++ String.ofList b ++ String.ofList c) = ⟨a ++ b ++ c⟩ := by
    rw [Source.ofString, String.toList_append, String.toList_append]
    simp only [String.toList_ofList]
  unfold Prelude.declaration
  rw [h]
  simp only [hsource]
  rfl

/-- The functions of the prelude can all be read. -/
theorem Prelude.declares_all : ∀ name ∈ Prelude.names,
    (Prelude.declaration name).toOption.any (Stmt.isHelper name) = true := by
  -- The characters of a long text are not computed from the text: that takes far longer than reading them.
  have hcq : (Prelude.declaration "cq").toOption.any (Stmt.isHelper "cq") = true := by
    rw [Prelude.declaration_of_lines (rfl : Prelude.source? "cq" = _)]
    decide +kernel
  have hothers : ∀ name ∈ ["either", "use"], (Prelude.declaration name).toOption.any (Stmt.isHelper name) = true := by
    decide +kernel
  intro name hname
  rcases (List.mem_append (s := ["either", "use"]) (t := ["cq"])).1 hname with hother | hlast
  · exact hothers name hother
  · rw [List.mem_singleton.1 hlast]
    exact hcq

theorem Prelude.exists_helper {name : String} (h : name ∈ Prelude.names) :
    ∃ d, Prelude.declaration name = .ok d ∧ d.isHelper name = true := by
  have hany := Prelude.declares_all name h
  cases hd : Prelude.declaration name with
  | error fault =>
      rw [hd] at hany
      cases hany
  | ok d =>
      rw [hd] at hany
      exact ⟨d, rfl, hany⟩

theorem Prelude.isHelper_of_declaration {name : String} {d : Stmt} (h : name ∈ Prelude.names)
    (hd : Prelude.declaration name = .ok d) : d.isHelper name = true := by
  obtain ⟨d', hd', hhelper⟩ := Prelude.exists_helper h
  rw [hd] at hd'
  cases hd'
  exact hhelper

namespace Stmt

variable {name : String} {d : Stmt} (h : d.isHelper name = true)

include h

theorem isFunction_of_isHelper : d.isFunction name = true := by
  simp only [isHelper, Bool.and_eq_true] at h
  exact h.1.1

/-- The functions of the prelude have no statements and no functions in the old style. -/
theorem inline_of_isHelper : ∀ n ∈ (Node.ofStmt d).tail, n.isInline = true := by
  simp only [isHelper, Bool.and_eq_true] at h
  exact List.all_eq_true.1 h.1.2

/-- The functions of the prelude have no names like temporaries. -/
theorem plain_of_isHelper : (∀ leaf ∈ Census.ofStmt true d, leaf.isTemporary = false) ∧
    ∀ m ∈ Mentions.ofStmt d, isTemporaryName m.name = false := by
  simp only [isHelper, Bool.and_eq_true, beq_iff_eq, Census.count_eq_zero, Multiset.countP_eq_zero,
    Bool.not_eq_true] at h
  exact h.2

end Stmt

theorem Prelude.exists_declaration {name : String} (h : name ∈ Prelude.names) :
    ∃ d, Prelude.declaration name = .ok d ∧ d.isFunction name = true := by
  obtain ⟨d, hd, hhelper⟩ := Prelude.exists_helper h
  exact ⟨d, hd, Stmt.isFunction_of_isHelper hhelper⟩

/-- The declarations of functions of the prelude. -/
theorem Prelude.exists_mapM_declaration {names : List String} (h : ∀ name ∈ names, name ∈ Prelude.names) :
    ∃ ds, names.mapM Prelude.declaration = .ok ds ∧
      ∀ d ∈ ds, ∃ name ∈ names, Prelude.declaration name = .ok d ∧ d.isFunction name = true := by
  induction names with
  | nil => exact ⟨[], rfl, List.forall_mem_nil _⟩
  | cons name names ih =>
      obtain ⟨d, hd, hfunction⟩ := Prelude.exists_declaration (h name List.mem_cons_self)
      obtain ⟨ds, hds, hall⟩ := ih fun other hother => h other (List.mem_cons_of_mem name hother)
      refine ⟨d :: ds, ?_, ?_⟩
      · rw [List.mapM_cons, hd, hds]
        rfl
      · intro d' hd'
        rcases List.mem_cons.1 hd' with rfl | hd'
        · exact ⟨name, List.mem_cons_self, hd, hfunction⟩
        · obtain ⟨other, hother, hok⟩ := hall d' hd'
          exact ⟨other, List.mem_cons_of_mem name hother, hok⟩

namespace Settle

/-- The state in which the walk through a body starts. -/
def State.start : State := ⟨Locals.empty.push, false, [], 0, []⟩

/-- The statements that a body becomes, and the state behind the walk. -/
def visited (body : Expr) (capabilities : Capabilities) (args : List String) : List Stmt × State :=
  (inScope (statement (returning body)) ⟨capabilities, args⟩).run State.start

/-- The functions of the prelude that a body needs. -/
def needed (body : Expr) (capabilities : Capabilities) (args : List String) : List String :=
  Prelude.names.filter (visited body capabilities args).2.helpers.contains

end Settle

open Settle

/-- The block of a body as it is written: the functions of the prelude that it needs, and the body, whose
value is returned. -/
def written (body : Expr) (capabilities : Capabilities) (args : List String) : Except GenerateFault Block := do
  let declarations ← (needed body capabilities args).mapM Prelude.declaration
  return .mk (declarations ++ [returning body]) body.span

variable (body : Expr) (capabilities : Capabilities) (args : List String)

/-- Settling walks through the body first and declares what the walk needs in front of its statements. -/
theorem settle_eq : settle body capabilities args = do
    let declarations ← (needed body capabilities args).mapM Prelude.declaration
    return .mk (declarations ++ (visited body capabilities args).1) body.span := rfl

/-- A settled body and the body as it is written have the same functions of the prelude in front. -/
theorem settle_written : ∃ helpers : List Stmt,
    (∀ d ∈ helpers, ∃ name ∈ needed body capabilities args,
      Prelude.declaration name = .ok d ∧ d.isFunction name = true) ∧
      written body capabilities args = .ok (.mk (helpers ++ [returning body]) body.span) ∧
      settle body capabilities args = .ok (.mk (helpers ++ (visited body capabilities args).1) body.span) := by
  have hneeded : ∀ name ∈ needed body capabilities args, name ∈ Prelude.names :=
    fun name hname => (List.mem_filter.1 hname).1
  obtain ⟨ds, hds, hall⟩ := Prelude.exists_mapM_declaration hneeded
  refine ⟨ds, hall, ?_, ?_⟩
  · unfold written
    rw [hds]
    rfl
  · rw [settle_eq, hds]
    rfl

end FieldScript
