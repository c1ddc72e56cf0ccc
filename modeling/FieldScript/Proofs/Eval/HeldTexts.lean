import FieldScript.Proofs.Settle.EndlessValues

/-!
# Texts beside an array that is being written

The text of an array needs the texts of its elements, one after another. While an array is being written it cannot be
read, so the walk through a value stops where it meets that array.

* `Store.Apart`: the walk comes to its end without meeting the array.
* `Store.Meets`: the walk meets the array before anything else stops it.
* `Store.textOf_aliased_iff`, `Store.exists_textOf_iff`: to the depth that texts are read to, the walk meets the array, or
  comes to its end, if it does so at all. A walk that goes on further than there are arrays goes on without end.
-/

namespace FieldScript

/-- The first element of a list on which a conversion fails. -/
theorem mapM_error_iff {ε α δ : Type} {f : α → Except ε δ} {xs : List α} {e : ε} :
    xs.mapM f = .error e ↔ ∃ before x after, xs = before ++ x :: after ∧ (∀ u ∈ before, ∃ z, f u = .ok z) ∧
      f x = .error e := by
  induction xs with
  | nil => exact iff_of_false nofun fun ⟨before, _, _, h, _⟩ => by cases before <;> cases h
  | cons x xs ih =>
      rw [List.mapM_cons]
      cases hx : f x with
      | error e' =>
          show Except.error e' = Except.error e ↔ _
          constructor
          · rintro ⟨⟩
            exact ⟨[], x, xs, rfl, nofun, hx⟩
          · rintro ⟨before, y, after, heq, hbefore, hy⟩
            cases before with
            | nil =>
                cases heq
                cases hx.symm.trans hy
                rfl
            | cons u before =>
                cases heq
                obtain ⟨z, hz⟩ := hbefore x List.mem_cons_self
                cases hx.symm.trans hz
      | ok z =>
          have hrest : (do
              let zs ← xs.mapM f
              (pure (z :: zs) : Except ε (List δ))) = .error e ↔ xs.mapM f = .error e := by
            cases xs.mapM f with
            | error e' => exact Iff.rfl
            | ok zs => exact iff_of_false nofun nofun
          refine hrest.trans (ih.trans ?_)
          constructor
          · rintro ⟨before, y, after, rfl, hbefore, hy⟩
            exact ⟨x :: before, y, after, rfl, List.forall_mem_cons.2 ⟨⟨z, hx⟩, hbefore⟩, hy⟩
          · rintro ⟨before, y, after, heq, hbefore, hy⟩
            cases before with
            | nil =>
                cases heq
                cases hx.symm.trans hy
            | cons u before =>
                cases heq
                exact ⟨before, y, after, rfl, (List.forall_mem_cons.1 hbefore).2, hy⟩

namespace Store

/-- The text of a value can be read while an array is being written. -/
inductive Apart (s : Store) (a : ArrayRef) : Value → Prop where
  | flat {v : Value} (h : ∀ b, v ≠ .array b) : Apart s a v
  | array {b : ArrayRef} (hne : b ≠ a) (h : ∀ v ∈ (s.array b).toList, Apart s a v) : Apart s a (.array b)

/-- Reading the text of a value meets an array. The elements in front of the one that leads to it can be read. -/
inductive Meets (s : Store) (a : ArrayRef) : Value → Prop where
  | here : Meets s a (.array a)
  | inside {b : ArrayRef} {v : Value} {before after : List Value} (hne : b ≠ a)
      (hitems : (s.array b).toList = before ++ v :: after) (hbefore : ∀ u ∈ before, Apart s a u) (h : Meets s a v) :
      Meets s a (.array b)

variable {s : Store} {a : ArrayRef} {v : Value} {d : Nat}

/-! ## One level -/

theorem textOf_array_error {b : ArrayRef} {e : Abort} (hne : b ≠ a) :
    s.textOf (some a) (d + 1) (.array b) = .error e ↔
      (s.array b).toList.mapM (s.itemText (some a) d) = .error e := by
  have heq : s.textOf (some a) (d + 1) (.array b) =
      if some a == some b then .error .aliased
      else do
        let parts ← (s.array b).toList.mapM (s.itemText (some a) d)
        return ",".intercalate parts := rfl
  rw [heq, if_neg (by simpa using hne.symm)]
  cases (s.array b).toList.mapM (s.itemText (some a) d) with
  | error e' =>
      show Except.error e' = Except.error e ↔ Except.error e' = Except.error e
      simp only [Except.error.injEq]
  | ok parts => exact iff_of_false nofun nofun

theorem textOf_array_self : s.textOf (some a) d (.array a) = .error .aliased := by
  cases d <;> simp [textOf]

theorem textOf_array_zero_error {b : ArrayRef} (hne : b ≠ a) : s.textOf (some a) 0 (.array b) = .error .cyclic := by
  simp [textOf, hne.symm]

theorem exists_textOf_flat (h : ∀ b, v ≠ .array b) : ∃ t, s.textOf (some a) d v = .ok t := by
  cases v with
  | array b => exact absurd rfl (h b)
  | _ => exact ⟨_, by rw [textOf]⟩

/-- As part of the text of an array, an element fails like its own text. -/
theorem itemText_error {e : Abort} : s.itemText (some a) d v = .error e ↔ s.textOf (some a) d v = .error e := by
  unfold itemText
  cases v with
  | undefined => simp [Value.isNullish, textOf]
  | null => simp [Value.isNullish, textOf]
  | _ => exact Iff.rfl

theorem exists_itemText : (∃ t, s.itemText (some a) d v = .ok t) ↔ ∃ t, s.textOf (some a) d v = .ok t := by
  unfold itemText
  cases v with
  | undefined => simp [Value.isNullish, textOf]
  | null => simp [Value.isNullish, textOf]
  | _ => exact Iff.rfl

/-- The first element whose text cannot be read. -/
theorem textOf_array_error_iff {b : ArrayRef} {e : Abort} (hne : b ≠ a) :
    s.textOf (some a) (d + 1) (.array b) = .error e ↔ ∃ before w after,
      (s.array b).toList = before ++ w :: after ∧ (∀ u ∈ before, ∃ t, s.textOf (some a) d u = .ok t) ∧
        s.textOf (some a) d w = .error e := by
  rw [textOf_array_error hne, mapM_error_iff]
  simp only [exists_itemText, itemText_error]

/-! ## All levels -/

/-- A walk that meets the array does so whatever else the bound of the depth would admit. -/
theorem textOf_aliased_succ (h : s.textOf (some a) d v = .error .aliased) :
    s.textOf (some a) (d + 1) v = .error .aliased := by
  induction d generalizing v with
  | zero =>
      cases v with
      | array b =>
          by_cases hne : b = a
          · rw [hne, textOf_array_self]
          · rw [textOf_array_zero_error hne] at h
            cases h
      | _ => exact h
  | succ d ih =>
      cases v with
      | array b =>
          by_cases hne : b = a
          · rw [hne, textOf_array_self]
          · obtain ⟨before, w, after, hitems, hbefore, hw⟩ := (textOf_array_error_iff hne).1 h
            refine (textOf_array_error_iff hne).2 ⟨before, w, after, hitems, fun u hu => ?_, ih hw⟩
            obtain ⟨t, ht⟩ := hbefore u hu
            exact ⟨t, textOf_succ ht⟩
      | _ => exact h

theorem textOf_aliased_mono {e : Nat} (hle : d ≤ e) (h : s.textOf (some a) d v = .error .aliased) :
    s.textOf (some a) e v = .error .aliased := by
  induction hle with
  | refl => exact h
  | step _ ih => exact textOf_aliased_succ ih

theorem Apart.of_textOf {t : String} (h : s.textOf (some a) d v = .ok t) : s.Apart a v := by
  induction d generalizing v t with
  | zero =>
      cases v with
      | array b => exact absurd h textOf_array_zero
      | _ => exact .flat nofun
  | succ d ih =>
      cases v with
      | array b =>
          obtain ⟨hheld, parts, hparts, -⟩ := textOf_array.1 h
          refine .array (fun heq => hheld (congrArg some heq.symm)) fun w hw => ?_
          obtain ⟨t, ht⟩ := exists_itemText.1 (exists_ok_of_mem hparts hw)
          exact ih ht
      | _ => exact .flat nofun

/-- Finitely many texts that exist to some depth each exist to one depth. -/
theorem exists_depth {items : List Value} (h : ∀ w ∈ items, ∃ d t, s.textOf (some a) d w = .ok t) :
    ∃ d, ∀ w ∈ items, ∃ t, s.textOf (some a) d w = .ok t := by
  induction items with
  | nil => exact ⟨0, nofun⟩
  | cons w more ih =>
      obtain ⟨d, t, ht⟩ := h w List.mem_cons_self
      obtain ⟨e, hmore⟩ := ih fun u hu => h u (List.mem_cons_of_mem w hu)
      refine ⟨max d e, List.forall_mem_cons.2 ⟨⟨t, textOf_mono (Nat.le_max_left d e) ht⟩, fun u hu => ?_⟩⟩
      obtain ⟨t', ht'⟩ := hmore u hu
      exact ⟨t', textOf_mono (Nat.le_max_right d e) ht'⟩

theorem Apart.exists_textOf (h : s.Apart a v) : ∃ d t, s.textOf (some a) d v = .ok t := by
  induction h with
  | flat h => exact ⟨0, exists_textOf_flat h⟩
  | @array b hne _ ih =>
      obtain ⟨d, hd⟩ := exists_depth ih
      obtain ⟨parts, hparts⟩ := exists_mapM_ok fun w hw => exists_itemText.2 (hd w hw)
      exact ⟨d + 1, _, textOf_array.2 ⟨fun heq => hne (Option.some.inj heq).symm, parts, hparts, rfl⟩⟩

theorem Meets.of_textOf (h : s.textOf (some a) d v = .error .aliased) : s.Meets a v := by
  induction d generalizing v with
  | zero =>
      cases v with
      | array b =>
          by_cases hne : b = a
          · exact hne ▸ .here
          · rw [textOf_array_zero_error hne] at h
            cases h
      | _ => cases h
  | succ d ih =>
      cases v with
      | array b =>
          by_cases hne : b = a
          · exact hne ▸ .here
          · obtain ⟨before, w, after, hitems, hbefore, hw⟩ := (textOf_array_error_iff hne).1 h
            exact .inside hne hitems (fun u hu => (hbefore u hu).elim fun _ ht => .of_textOf ht) (ih hw)
      | _ => cases h

theorem Meets.exists_textOf (h : s.Meets a v) : ∃ d, s.textOf (some a) d v = .error .aliased := by
  induction h with
  | here => exact ⟨0, textOf_array_self⟩
  | @inside b w before after hne hitems hbefore _ ih =>
      obtain ⟨d, hd⟩ := ih
      obtain ⟨e, he⟩ := exists_depth fun u hu => (hbefore u hu).exists_textOf
      refine ⟨max d e + 1, (textOf_array_error_iff hne).2 ⟨before, w, after, hitems, fun u hu => ?_,
        textOf_aliased_mono (Nat.le_max_left d e) hd⟩⟩
      obtain ⟨t, ht⟩ := he u hu
      exact ⟨t, textOf_mono (Nat.le_max_right d e) ht⟩

theorem Apart.not_aliased (h : s.Apart a v) : s.textOf (some a) d v ≠ .error .aliased := by
  intro haliased
  obtain ⟨e, t, ht⟩ := h.exists_textOf
  have htext := textOf_mono (Nat.le_max_right d e) ht
  rw [textOf_aliased_mono (Nat.le_max_left d e) haliased] at htext
  cases htext

/-! ## The bound of the depth -/

theorem textOf_cases (s : Store) (a : ArrayRef) (d : Nat) (v : Value) :
    (∃ t, s.textOf (some a) d v = .ok t) ∨ s.textOf (some a) d v = .error .cyclic ∨
      s.textOf (some a) d v = .error .aliased := by
  induction d generalizing v with
  | zero =>
      cases v with
      | array b =>
          by_cases hne : b = a
          · exact .inr (.inr (hne ▸ textOf_array_self))
          · exact .inr (.inl (textOf_array_zero_error hne))
      | _ => exact .inl (exists_textOf_flat nofun)
  | succ d ih =>
      cases v with
      | array b =>
          by_cases hne : b = a
          · exact .inr (.inr (hne ▸ textOf_array_self))
          cases htext : s.textOf (some a) (d + 1) (.array b) with
          | ok t => exact .inl ⟨t, rfl⟩
          | error e =>
              obtain ⟨-, w, -, -, -, hw⟩ := (textOf_array_error_iff hne).1 htext
              rcases ih w with ⟨t, ht⟩ | hcyclic | haliased
              · cases ht.symm.trans hw
              · cases hcyclic.symm.trans hw
                exact .inr (.inl rfl)
              · cases haliased.symm.trans hw
                exact .inr (.inr rfl)
      | _ => exact .inl (exists_textOf_flat nofun)

/-- Elements that can be read have a text, or need more depth. -/
theorem exists_first_cyclic {w : Value} (before after : List Value) (hbefore : ∀ u ∈ before, s.Apart a u)
    (hw : s.textOf (some a) d w = .error .cyclic) : ∃ first x rest, before ++ w :: after = first ++ x :: rest ∧
      (∀ u ∈ first, ∃ t, s.textOf (some a) d u = .ok t) ∧ s.textOf (some a) d x = .error .cyclic := by
  induction before with
  | nil => exact ⟨[], w, after, rfl, nofun, hw⟩
  | cons u more ih =>
      obtain ⟨hu, hmore⟩ := List.forall_mem_cons.1 hbefore
      rcases s.textOf_cases a d u with hok | hcyclic | haliased
      · obtain ⟨first, x, rest, heq, hfirst, hx⟩ := ih hmore
        exact ⟨u :: first, x, rest, congrArg (u :: ·) heq, List.forall_mem_cons.2 ⟨hok, hfirst⟩, hx⟩
      · exact ⟨[], u, more ++ w :: after, rfl, nofun, hcyclic⟩
      · exact absurd haliased hu.not_aliased

/-- An element that the walk through an array comes to. -/
inductive ComesTo (s : Store) (a : ArrayRef) : Value → Value → Prop where
  | element {b : ArrayRef} {w : Value} {before after : List Value} (hne : b ≠ a)
      (hitems : (s.array b).toList = before ++ w :: after) (hbefore : ∀ u ∈ before, Apart s a u) :
      ComesTo s a (.array b) w

/-- Walks go down along the elements that they come to. -/
theorem comesTo_levels (s : Store) (a : ArrayRef) :
    Levels (s.ComesTo a) (fun d v => s.textOf (some a) d v ≠ .error .cyclic) s.arrays.size where
  zero v w hR := by
    obtain ⟨hne, -, -⟩ := hR
    exact not_not.2 (textOf_array_zero_error hne)
  succ d v := by
    by_cases harray : ∃ b, v = .array b
    · obtain ⟨b, rfl⟩ := harray
      by_cases hne : b = a
      · rw [hne, textOf_array_self]
        refine iff_of_true nofun fun w hw => ?_
        cases hw with
        | element hne _ _ => exact absurd rfl hne
      rw [Ne, textOf_array_error_iff hne]
      constructor
      · rintro h w ⟨-, hitems, hbefore⟩ hw
        obtain ⟨first, x, rest, heq, hfirst, hx⟩ := exists_first_cyclic _ _ hbefore hw
        exact h ⟨first, x, rest, hitems.trans heq, hfirst, hx⟩
      · rintro h ⟨before, w, after, hitems, hbefore, hw⟩
        exact h w (.element hne hitems fun u hu => (hbefore u hu).elim fun _ ht => .of_textOf ht) hw
    · have hflat : ∃ t, s.textOf (some a) (d + 1) v = .ok t := exists_textOf_flat fun b hb => harray ⟨b, hb⟩
      obtain ⟨t, ht⟩ := hflat
      rw [ht]
      refine iff_of_true nofun fun w hw => ?_
      cases hw
      exact absurd ⟨_, rfl⟩ harray
  mono d v := by
    intro h hcyclic
    rcases s.textOf_cases a d v with ⟨t, ht⟩ | hd | haliased
    · cases (textOf_succ ht).symm.trans hcyclic
    · exact h hd
    · cases (textOf_aliased_succ haliased).symm.trans hcyclic
  numbered := by
    refine ⟨s.place, ?_⟩
    rintro _ w ⟨-, hitems, -⟩
    refine ⟨array_lt (hitems ▸ List.mem_append_right _ List.mem_cons_self), ?_⟩
    rintro _ _ ⟨-, -, -⟩ heq
    exact congrArg Value.array (congrArg ArrayRef.mk heq)

/-- Reading the text of a value meets the array that is being written if and only if it does so to any depth. -/
theorem textOf_aliased_iff (s : Store) (a : ArrayRef) (v : Value) :
    s.textOf (some a) (s.arrays.size + 1) v = .error .aliased ↔ s.Meets a v := by
  refine ⟨.of_textOf, fun h => ?_⟩
  obtain ⟨d, hd⟩ := h.exists_textOf
  have hlevels := s.comesTo_levels a
  have hends : ¬Endless (s.ComesTo a) v := hlevels.not_endless (d := d) (by rw [hd]; nofun)
  rcases s.textOf_cases a (s.arrays.size + 1) v with ⟨t, ht⟩ | hcyclic | haliased
  · exact absurd hd (Apart.of_textOf ht).not_aliased
  · exact absurd hcyclic ((hlevels.ok_iff v).2 hends)
  · exact haliased

/-- The text of a value can be read beside the array that is being written if and only if it can be read to any
depth. -/
theorem exists_textOf_iff (s : Store) (a : ArrayRef) (v : Value) :
    (∃ t, s.textOf (some a) (s.arrays.size + 1) v = .ok t) ↔ s.Apart a v := by
  refine ⟨fun ⟨t, ht⟩ => .of_textOf ht, fun h => ?_⟩
  obtain ⟨d, t, ht⟩ := h.exists_textOf
  have hlevels := s.comesTo_levels a
  have hends : ¬Endless (s.ComesTo a) v := hlevels.not_endless (d := d) (by rw [ht]; nofun)
  rcases s.textOf_cases a (s.arrays.size + 1) v with hok | hcyclic | haliased
  · exact hok
  · exact absurd hcyclic ((hlevels.ok_iff v).2 hends)
  · exact absurd haliased h.not_aliased

/-- The number of a value cannot be had if its text leads to the array that is being written. -/
theorem numberOf_aliased_iff (s : Store) (a : ArrayRef) (v : Value) :
    s.numberOf (some a) v = .error .aliased ↔ s.Meets a v := by
  by_cases harray : ∃ b, v = .array b
  · obtain ⟨b, rfl⟩ := harray
    rw [← textOf_aliased_iff]
    show (s.textOf (some a) (s.arrays.size + 1) (.array b) >>= _) = _ ↔ _
    cases s.textOf (some a) (s.arrays.size + 1) (.array b) with
    | error e =>
        show Except.error e = Except.error .aliased ↔ Except.error e = Except.error .aliased
        simp only [Except.error.injEq]
    | ok t => exact iff_of_false nofun nofun
  · refine iff_of_false (fun h => ?_) fun h => ?_
    · cases v with
      | array b => exact harray ⟨b, rfl⟩
      | _ => cases h
    · cases h with
      | here => exact harray ⟨_, rfl⟩
      | inside _ _ _ _ => exact harray ⟨_, rfl⟩

theorem Apart.exists_numberOf (h : s.Apart a v) : ∃ x, s.numberOf (some a) v = .ok x := by
  cases v with
  | array b =>
      obtain ⟨t, ht⟩ := (s.exists_textOf_iff a (.array b)).2 h
      refine ⟨Number.ofText t, ?_⟩
      show (s.textOf (some a) (s.arrays.size + 1) (.array b) >>= _) = _
      rw [ht]
      rfl
  | _ => exact ⟨_, by rw [numberOf]⟩

/-- Where no array is being written none is met. -/
theorem textOf_none_ne_aliased (s : Store) (d : Nat) (v : Value) : s.textOf none d v ≠ .error .aliased := by
  induction d generalizing v with
  | zero => cases v <;> exact nofun
  | succ d ih =>
      cases v with
      | array b =>
          show (((s.array b).toList.mapM (s.itemText none d)) >>= _) ≠ _
          cases hparts : (s.array b).toList.mapM (s.itemText none d) with
          | ok parts => exact nofun
          | error e =>
              obtain ⟨-, w, -, -, -, hw⟩ := mapM_error_iff.1 hparts
              rintro ⟨⟩
              unfold itemText at hw
              split at hw
              · cases hw
              · exact ih w hw
      | _ => exact nofun

end Store
end FieldScript
