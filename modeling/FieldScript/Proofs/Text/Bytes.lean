import FieldScript.Text.Offset

/-!
# The bytes of a text

A text is a list of characters, and its offsets count the bytes of its UTF-8 form. So the bytes of a text have offsets,
and they can be told apart by them.

* `bytes`: the UTF-8 form of a text. Its length is the byte length of the text.
* `fromUTF8?_eq_some_iff`: bytes are read as the text whose UTF-8 form they are.
* `bytesWhere`: the bytes whose offsets fulfil a condition, in their order.
-/

namespace FieldScript.Text

/-- The UTF-8 form of a text. -/
def bytes (text : List Char) : List UInt8 := text.flatMap String.utf8EncodeChar

theorem bytes_append (a b : List Char) : bytes (a ++ b) = bytes a ++ bytes b := List.flatMap_append

theorem length_bytes (text : List Char) : (bytes text).length = byteLength text := by
  induction text with
  | nil => rfl
  | cons c rest ih =>
      show (String.utf8EncodeChar c ++ bytes rest).length = _
      rw [List.length_append, String.length_utf8EncodeChar, ih, byteLength_cons]

/-- Bytes are read as the text whose UTF-8 form they are. -/
theorem fromUTF8?_eq_some_iff {bs : List UInt8} {text : String} :
    String.fromUTF8? ⟨bs.toArray⟩ = some text ↔ bs = bytes text.toList := by
  have hbytes : (⟨(bytes text.toList).toArray⟩ : ByteArray) = text.toByteArray := by
    rw [bytes, ← List.data_toByteArray, ← List.utf8Encode, ← String.toByteArray_ofList, String.ofList_toList]
  unfold String.fromUTF8?
  constructor
  · intro h
    split at h
    · next hvalid =>
      have harray : (⟨bs.toArray⟩ : ByteArray) = text.toByteArray := congrArg String.toByteArray (Option.some.inj h)
      rw [← hbytes] at harray
      exact congrArg (fun array : ByteArray => array.data.toList) harray
    · cases h
  · rintro rfl
    rw [hbytes, dif_pos text.isValidUTF8]
    rfl

/-- The bytes of a list whose offsets fulfil a condition, in their order. The first byte of the list has the offset
`o`. -/
def bytesWhere (p : Nat → Prop) [DecidablePred p] (o : Nat) (bs : List UInt8) : List UInt8 :=
  ((bs.zipIdx o).filter fun (_, i) => p i).map (·.1)

section

variable {p q : Nat → Prop} [DecidablePred p] [DecidablePred q] {o : Nat} {bs cs : List UInt8}

theorem bytesWhere_append : bytesWhere p o (bs ++ cs) = bytesWhere p o bs ++ bytesWhere p (o + bs.length) cs := by
  unfold bytesWhere
  rw [List.zipIdx_append, List.filter_append, List.map_append]

theorem bytesWhere_congr (h : ∀ i, o ≤ i → i < o + bs.length → (p i ↔ q i)) :
    bytesWhere p o bs = bytesWhere q o bs := by
  unfold bytesWhere
  congr 1
  refine List.filter_congr fun (b, i) hmem => ?_
  obtain ⟨hle, hlt, -⟩ := List.mem_zipIdx hmem
  exact decide_eq_decide.2 (h i hle hlt)

theorem bytesWhere_of_forall (h : ∀ i, o ≤ i → i < o + bs.length → p i) : bytesWhere p o bs = bs := by
  have htrue : bytesWhere p o bs = bytesWhere (fun _ => True) o bs :=
    bytesWhere_congr fun i hle hlt => iff_true_intro (h i hle hlt)
  rw [htrue, bytesWhere, List.filter_eq_self.2 (by simp), List.zipIdx_map_fst]

theorem bytesWhere_of_forall_not (h : ∀ i, o ≤ i → i < o + bs.length → ¬ p i) : bytesWhere p o bs = [] := by
  have hfalse : bytesWhere p o bs = bytesWhere (fun _ => False) o bs :=
    bytesWhere_congr fun i hle hlt => iff_false_intro (h i hle hlt)
  rw [hfalse, bytesWhere, List.filter_eq_nil_iff.2 (by simp), List.map_nil]

end

end FieldScript.Text
