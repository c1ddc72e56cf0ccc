/-!
# Byte offsets of a text

Every offset in this library counts bytes of the UTF-8 form of a text, although texts are handled
as lists of characters. An offset that falls inside a character names no place: the functions here
answer `none` for it.
-/

namespace FieldScript.Text

/-- The number of bytes a text takes in UTF-8. -/
def byteLength : List Char → Nat
  | [] => 0
  | c :: rest => c.utf8Size + byteLength rest

/-- What is left of a text after its first `n` bytes. -/
def dropBytes? (n : Nat) : List Char → Option (List Char)
  | [] => if n = 0 then some [] else none
  | c :: rest =>
    if n = 0 then some (c :: rest)
    else if c.utf8Size ≤ n then dropBytes? (n - c.utf8Size) rest
    else none

/-- The first `n` bytes of a text. -/
def takeBytes? (n : Nat) : List Char → Option (List Char)
  | [] => if n = 0 then some [] else none
  | c :: rest =>
    if n = 0 then some []
    else if c.utf8Size ≤ n then (takeBytes? (n - c.utf8Size) rest).map (c :: ·)
    else none

/-- The part of a text from one offset up to another. -/
def slice? (start stop : Nat) (text : List Char) : Option (List Char) :=
  if start ≤ stop then (dropBytes? start text).bind (takeBytes? (stop - start)) else none

/-- The part of a text from one offset up to another, empty where the offsets name no part. -/
def slice (start stop : Nat) (text : List Char) : List Char :=
  (slice? start stop text).getD []

@[simp] theorem byteLength_nil : byteLength [] = 0 := rfl

@[simp] theorem byteLength_cons (c : Char) (rest : List Char) :
    byteLength (c :: rest) = c.utf8Size + byteLength rest := rfl

@[simp] theorem byteLength_append (a b : List Char) :
    byteLength (a ++ b) = byteLength a + byteLength b := by
  induction a with
  | nil => simp
  | cons c rest ih => simp [ih, Nat.add_assoc]

@[simp] theorem dropBytes?_zero (text : List Char) : dropBytes? 0 text = some text := by
  cases text <;> simp [dropBytes?]

@[simp] theorem takeBytes?_zero (text : List Char) : takeBytes? 0 text = some [] := by
  cases text <;> simp [takeBytes?]

theorem dropBytes?_append (a b : List Char) : dropBytes? (byteLength a) (a ++ b) = some b := by
  induction a with
  | nil => simp
  | cons c rest ih =>
    have hc : 0 < c.utf8Size := Char.utf8Size_pos c
    simp [dropBytes?, ih, Nat.ne_of_gt hc]

theorem takeBytes?_append (a b : List Char) : takeBytes? (byteLength a) (a ++ b) = some a := by
  induction a with
  | nil => simp
  | cons c rest ih =>
    have hc : 0 < c.utf8Size := Char.utf8Size_pos c
    simp [takeBytes?, ih, Nat.ne_of_gt hc]

theorem byteLength_pos {text : List Char} (h : text ≠ []) : 0 < byteLength text := by
  obtain ⟨c, rest, rfl⟩ := List.exists_cons_of_ne_nil h
  rw [byteLength_cons]
  exact Nat.lt_of_lt_of_le (Char.utf8Size_pos c) (Nat.le_add_right _ _)

/-! ## Two ways to cut a text -/

variable {a b a' b' : List Char}

/-- What is behind an offset does not depend on the way to write the text. -/
theorem rest_eq_of_byteLength (h : a ++ b = a' ++ b') (hlength : byteLength a = byteLength a') : b = b' := by
  have hdrop := congrArg (dropBytes? (byteLength a)) h
  rw [dropBytes?_append, hlength, dropBytes?_append] at hdrop
  exact Option.some.inj hdrop

/-- The later cut is behind the earlier one. -/
theorem exists_between (h : a ++ b = a' ++ b') (hle : byteLength a ≤ byteLength a') :
    ∃ m, a' = a ++ m ∧ b = m ++ b' := by
  rcases List.append_eq_append_iff.1 h with ⟨m, hm, hb⟩ | ⟨m, hm, hb⟩
  · exact ⟨m, hm, hb⟩
  · obtain rfl : m = [] := by
      apply Classical.byContradiction
      intro hne
      have hpos := byteLength_pos hne
      rw [hm, byteLength_append] at hle
      omega
    exact ⟨[], by simp [hm], by simp [hb]⟩

end FieldScript.Text
