import Mathlib.Data.List.Nodup
import FieldScript.Proofs.Composite.Partition
import FieldScript.Proofs.Syntax.Moved

/-!
# Extractions one behind the other

What two sources hold is merged in the way in which one source with both texts would hold it: the regions follow on one
another, and a field that has a body in both keeps its place among the bodies of the first source and has the expression
of the second one (`Extraction.merge`).

* `setBody_append`, `setBody_eq_map`, `filter_setBody`: setting the body of a field in a part of a list of bodies.
* `merge_add`: adding a region to the second extraction is adding it to the merge of both. As a body of the first
  extraction is replaced wherever it stands, no field may have two of them there.
* `extract_nodup`: in an extraction no field has.
-/

namespace FieldScript

/-- A region that stands `d` bytes further behind. -/
def Region.moved (d : Nat) (r : Region) : Region := { r with span := r.span.moved d }

@[simp] theorem Region.moved_zero (r : Region) : r.moved 0 = r := rfl

/-- A body whose expression stands further behind. -/
def FieldBody.moved (d : Nat) (b : FieldBody) : FieldBody := { b with expr := b.expr.moved d }

@[simp] theorem FieldBody.moved_zero (b : FieldBody) : b.moved 0 = b := by rw [FieldBody.moved, Expr.moved_zero]

namespace Extraction

variable {x y : Extraction} {b : FieldBody} {bodies more : List FieldBody}

/-- An extraction of a text that stands further behind. -/
def moved (d : Nat) (x : Extraction) : Extraction := ⟨x.regions.map (·.moved d), x.bodies.map (·.moved d)⟩

/-- The extraction of a text and of another one behind it. -/
def merge (x y : Extraction) : Extraction where
  regions := x.regions ++ y.regions
  bodies := x.bodies.map (fun b => (y.body? b.container b.field).getD b) ++
    y.bodies.filter fun b => (x.body? b.container b.field).isNone

/-! ## Bodies by their fields -/

theorem body?_key {container : Container} {field : String} (h : x.body? container field = some b) :
    b.key = (container, field) := by
  have hfield := List.find?_some h
  simp only [Bool.and_eq_true, beq_iff_eq] at hfield
  exact Prod.ext hfield.1 hfield.2

theorem body?_isNone {container : Container} {field : String} :
    (x.body? container field).isNone = true ↔ (container, field) ∉ x.bodies.map FieldBody.key := by
  simp [body?, FieldBody.key]

theorem body?_add (x : Extraction) (r : Region) (e : Expr) (container : Container) (field : String) :
    (x.add r e).body? container field =
      if r.key = (container, field) then some ⟨r.container, r.field, e⟩ else x.body? container field :=
  find?_setBody ⟨r.container, r.field, e⟩ x.bodies container field

theorem setBody_pos {b' : FieldBody} (h : b'.key = b.key) : setBody b (b' :: bodies) = b :: bodies :=
  if_pos ⟨congrArg Prod.fst h, congrArg Prod.snd h⟩

theorem setBody_neg {b' : FieldBody} (h : b'.key ≠ b.key) : setBody b (b' :: bodies) = b' :: setBody b bodies :=
  if_neg fun hsame => h (Prod.ext hsame.1 hsame.2)

theorem setBody_append :
    setBody b (bodies ++ more) =
      if b.key ∈ bodies.map FieldBody.key then setBody b bodies ++ more else bodies ++ setBody b more := by
  induction bodies with
  | nil => rfl
  | cons b' bodies ih =>
      by_cases hkey : b'.key = b.key
      · rw [if_pos (by simp [hkey]), List.cons_append, setBody_pos hkey, setBody_pos hkey, List.cons_append]
      · rw [List.cons_append, setBody_neg hkey, setBody_neg hkey, ih]
        by_cases hmem : b.key ∈ bodies.map FieldBody.key
        · rw [if_pos hmem, if_pos (by simp [hmem]), List.cons_append]
        · rw [if_neg hmem, if_neg (by simp [Ne.symm hkey, hmem]), List.cons_append]

/-- A field that has one body gets another one in its place. -/
theorem setBody_eq_map (hnodup : (bodies.map FieldBody.key).Nodup) (hmem : b.key ∈ bodies.map FieldBody.key) :
    setBody b bodies = bodies.map fun b' => if b.key = b'.key then b else b' := by
  induction bodies with
  | nil => cases hmem
  | cons b' bodies ih =>
      rw [List.map_cons, List.nodup_cons] at hnodup
      by_cases hkey : b'.key = b.key
      · have hrest : bodies.map (fun b' => if b.key = b'.key then b else b') = bodies := by
          refine (List.map_congr_left fun b'' hb'' => ?_).trans (List.map_id bodies)
          refine if_neg fun heq => hnodup.1 ?_
          rw [hkey, heq]
          exact List.mem_map_of_mem hb''
        rw [setBody_pos hkey, List.map_cons, if_pos hkey.symm, hrest]
      · have hmem' : b.key ∈ bodies.map FieldBody.key := by simpa [Ne.symm hkey] using hmem
        rw [setBody_neg hkey, List.map_cons, if_neg (Ne.symm hkey), ih hnodup.2 hmem']

/-- Bodies are picked by their fields before or after one of them is set. -/
theorem filter_setBody (b : FieldBody) (bodies : List FieldBody) (p : Container × String → Bool) :
    (setBody b bodies).filter (fun b => p b.key) =
      if p b.key then setBody b (bodies.filter fun b => p b.key) else bodies.filter fun b => p b.key := by
  induction bodies with
  | nil =>
      by_cases hb : p b.key = true
      · simp [setBody, hb]
      · simp [setBody, hb]
  | cons b' bodies ih =>
      by_cases hkey : b'.key = b.key
      · by_cases hb : p b.key = true
        · simp [setBody_pos hkey, hkey, hb]
        · simp [setBody_pos hkey, hkey, hb]
      · by_cases hb : p b.key = true
        · by_cases hb' : p b'.key = true
          · simp [setBody_neg hkey, hb, hb', ih]
          · simp [setBody_neg hkey, hb, hb', ih]
        · by_cases hb' : p b'.key = true
          · simp [setBody_neg hkey, hb, hb', ih]
          · simp [setBody_neg hkey, hb, hb', ih]

theorem setBody_nodup (h : (bodies.map FieldBody.key).Nodup) : ((setBody b bodies).map FieldBody.key).Nodup := by
  rw [setBody_keys]
  by_cases hmem : b.key ∈ bodies.map FieldBody.key
  · rwa [if_pos hmem]
  · rw [if_neg hmem]
    rw [← List.concat_eq_append]
    exact List.Nodup.concat hmem h

theorem ofList_nodup (found : List (Region × Expr)) : ((ofList found).bodies.map FieldBody.key).Nodup := by
  induction found using List.reverseRecOn with
  | nil => exact List.nodup_nil
  | append_singleton found p ih =>
      rw [ofList_append]
      exact setBody_nodup ih

/-- No field has two bodies in an extraction. -/
theorem extract_nodup {source : Source} (h : extract source = .ok x) : (x.bodies.map FieldBody.key).Nodup := by
  obtain ⟨ps, -, rfl⟩ := Extract.extract_course h
  exact ofList_nodup _

/-! ## Extractions further behind -/

@[simp] theorem moved_zero (x : Extraction) : x.moved 0 = x := by
  simp [moved]

theorem setBody_moved (d : Nat) (b : FieldBody) (bodies : List FieldBody) :
    (setBody b bodies).map (·.moved d) = setBody (b.moved d) (bodies.map (·.moved d)) := by
  induction bodies with
  | nil => rfl
  | cons b' bodies ih =>
      by_cases hkey : b'.key = b.key
      · have hkey' : (b'.moved d).key = (b.moved d).key := hkey
        rw [setBody_pos hkey, List.map_cons, List.map_cons, setBody_pos hkey']
      · have hkey' : (b'.moved d).key ≠ (b.moved d).key := hkey
        rw [setBody_neg hkey, List.map_cons, List.map_cons, setBody_neg hkey', ih]

theorem moved_add (d : Nat) (x : Extraction) (r : Region) (e : Expr) :
    (x.add r e).moved d = (x.moved d).add (r.moved d) (e.moved d) := by
  rw [moved, add, List.map_append, setBody_moved]
  rfl

/-! ## Merged extractions -/

@[simp] theorem empty_merge (x : Extraction) : empty.merge x = x := by
  simp [merge, empty, body?]

@[simp] theorem merge_empty (x : Extraction) : x.merge empty = x := by
  simp [merge, empty, body?]

/-- The body that a field of the first extraction has in the merge belongs to the same field. -/
theorem merged_key (y : Extraction) (b : FieldBody) : ((y.body? b.container b.field).getD b).key = b.key := by
  cases hbody : y.body? b.container b.field with
  | none => rfl
  | some b' => exact body?_key hbody

theorem merged_keys (x y : Extraction) :
    (x.bodies.map fun b => (y.body? b.container b.field).getD b).map FieldBody.key = x.bodies.map FieldBody.key := by
  rw [List.map_map]
  exact List.map_congr_left fun b _ => merged_key y b

theorem merged_add (y : Extraction) (r : Region) (e : Expr) (b : FieldBody) :
    ((y.add r e).body? b.container b.field).getD b =
      if r.key = b.key then ⟨r.container, r.field, e⟩ else (y.body? b.container b.field).getD b := by
  have hb : (b.container, b.field) = b.key := rfl
  rw [body?_add, hb]
  by_cases hkey : r.key = b.key
  · rw [if_pos hkey, if_pos hkey, Option.getD_some]
  · rw [if_neg hkey, if_neg hkey]

theorem filter_add (x y : Extraction) (r : Region) (e : Expr) :
    (y.add r e).bodies.filter (fun b => (x.body? b.container b.field).isNone) =
      if r.key ∈ x.bodies.map FieldBody.key then y.bodies.filter fun b => (x.body? b.container b.field).isNone
      else setBody ⟨r.container, r.field, e⟩ (y.bodies.filter fun b => (x.body? b.container b.field).isNone) := by
  have hfilter := filter_setBody ⟨r.container, r.field, e⟩ y.bodies fun key => (x.body? key.1 key.2).isNone
  refine hfilter.trans ?_
  by_cases hmem : r.key ∈ x.bodies.map FieldBody.key
  · exact (if_neg fun hnone => body?_isNone.1 hnone hmem).trans (if_pos hmem).symm
  · exact (if_pos (body?_isNone.2 hmem)).trans (if_neg hmem).symm

theorem merge_add_bodies (hx : (x.bodies.map FieldBody.key).Nodup) (y : Extraction) (r : Region) (e : Expr) :
    (x.merge (y.add r e)).bodies = setBody ⟨r.container, r.field, e⟩ (x.merge y).bodies := by
  have hmerged := merged_keys x y
  have hkey : (FieldBody.mk r.container r.field e).key = r.key := rfl
  show _ ++ _ = setBody _ (_ ++ _)
  rw [setBody_append, hmerged, filter_add, hkey]
  by_cases hmem : r.key ∈ x.bodies.map FieldBody.key
  · -- The field has a body in the first extraction, whose place the new one takes.
    rw [if_pos hmem, if_pos hmem, setBody_eq_map (by rwa [hmerged]) (by rwa [hmerged]), List.map_map]
    congr 1
    refine List.map_congr_left fun b _ => ?_
    rw [merged_add, Function.comp_apply, merged_key]
    rfl
  · -- It comes behind these, and the bodies of the first extraction stay as they are.
    rw [if_neg hmem, if_neg hmem]
    congr 1
    refine List.map_congr_left fun b hb => ?_
    rw [merged_add, if_neg]
    intro hsame
    exact hmem (hsame ▸ List.mem_map_of_mem hb)

/-- What is added to the second extraction is added to both. -/
theorem merge_add (hx : (x.bodies.map FieldBody.key).Nodup) (y : Extraction) (r : Region) (e : Expr) :
    x.merge (y.add r e) = (x.merge y).add r e := by
  have hregions : x.regions ++ (y.regions ++ [r]) = (x.regions ++ y.regions) ++ [r] := (List.append_assoc ..).symm
  exact congrArg₂ Extraction.mk hregions (merge_add_bodies hx y r e)

end Extraction
end FieldScript
