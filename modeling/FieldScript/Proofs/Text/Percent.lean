import FieldScript.Text.Percent
import FieldScript.Proofs.Text.Bytes

/-!
# Percent encoding and queries

In an encoded text every percent sign stands in front of a pair of characters, and the three together stand for a byte.
The other characters stand for their own bytes. The text is decoded if the bytes are the UTF-8 form of a text.

* `Escaped`: every percent sign of a text stands in front of a pair of a given kind.
* `Digits`, `Signed`: two hexadecimal digits, and a pair whose first character may be a plus sign instead.
* `replaced`: the bytes that a text stands for.
* `percentDecode?_eq_some_iff`: what is decoded, and to which text. The pairs that are read are the signed ones, so that
  a percent sign need not stand in front of two digits (`plusSign_decodes`).

Encoded texts are read back, and none of them holds a character that separates the entries of a query or their two
sides. So a query can be taken apart again.

* `percentDecode_percentEncode`: decoding gives back every text that was encoded.
* `readQuery?_query`: a query is read as the entries it was made of, in their order.
-/

namespace FieldScript.Text

/-! ## Escapes -/

/-- Every percent sign of a text stands in front of two characters of a kind. -/
def Escaped (pair : Char → Char → Prop) (text : List Char) : Prop :=
  ∀ front behind, text = front ++ '%' :: behind → ∃ high low rest, behind = high :: low :: rest ∧ pair high low

/-- Two hexadecimal digits. -/
def Digits (high low : Char) : Prop := isDigitOf 16 high ∧ isDigitOf 16 low

/-- A hexadecimal digit behind another one or behind a plus sign. -/
def Signed (high low : Char) : Prop := (isDigitOf 16 high ∨ high = '+') ∧ isDigitOf 16 low

/-- The byte for two characters: the number that the digits among them denote. -/
def pairByte (high low : Char) : UInt8 := UInt8.ofNat (digitsValue 16 ([high, low].filter (isDigitOf 16)))

/-- The bytes that a text stands for: a percent sign and the two characters behind it stand for one byte, and every
other character for its own bytes. -/
def replaced : List Char → List UInt8
  | [] => []
  | '%' :: high :: low :: rest => pairByte high low :: replaced rest
  | c :: rest => String.utf8EncodeChar c ++ replaced rest

section

variable {pair : Char → Char → Prop} {c high low : Char} {rest : List Char}

theorem escaped_nil : Escaped pair [] := by
  intro front behind h
  exact absurd h (by simp)

/-- The percent signs of a text are its first character, if that is one, and those behind it. -/
theorem escaped_cons : Escaped pair (c :: rest) ↔
    (c = '%' → ∃ high low rest', rest = high :: low :: rest' ∧ pair high low) ∧ Escaped pair rest := by
  constructor
  · intro h
    refine ⟨?_, fun front behind hrest => h (c :: front) behind (by rw [hrest, List.cons_append])⟩
    rintro rfl
    exact h [] rest rfl
  · rintro ⟨hfirst, hrest⟩ front behind htext
    cases front with
    | nil =>
        obtain ⟨rfl, rfl⟩ := List.cons.inj htext
        exact hfirst rfl
    | cons d front => exact hrest front behind (List.cons.inj htext).2

theorem escaped_cons_of_ne (hc : c ≠ '%') : Escaped pair (c :: rest) ↔ Escaped pair rest := by
  rw [escaped_cons, and_iff_right fun h => absurd h hc]

/-- Where a pair holds no percent sign, the signs behind it are those of the rest. -/
theorem escaped_percent (hpair : pair high low → high ≠ '%' ∧ low ≠ '%') :
    Escaped pair ('%' :: high :: low :: rest) ↔ pair high low ∧ Escaped pair rest := by
  rw [escaped_cons]
  constructor
  · rintro ⟨hfirst, hrest⟩
    obtain ⟨_, _, _, heq, h⟩ := hfirst rfl
    cases heq
    rw [escaped_cons_of_ne (hpair h).1, escaped_cons_of_ne (hpair h).2] at hrest
    exact ⟨h, hrest⟩
  · rintro ⟨h, hrest⟩
    refine ⟨fun _ => ⟨high, low, rest, rfl, h⟩, ?_⟩
    rwa [escaped_cons_of_ne (hpair h).1, escaped_cons_of_ne (hpair h).2]

/-- No pair that is read holds a percent sign. -/
theorem Signed.ne_percent (h : Signed high low) : high ≠ '%' ∧ low ≠ '%' := by
  have hpercent : ¬ isDigitOf 16 '%' := by decide
  obtain ⟨hhigh, hlow⟩ := h
  constructor
  · rintro rfl
    exact hhigh.elim hpercent (by decide)
  · rintro rfl
    exact hpercent hlow

/-- The percent signs that stand in front of two digits are those in front of a pair that is read, a plus sign
excepted. -/
theorem escaped_digits_iff {text : List Char} :
    Escaped Digits text ↔ Escaped Signed text ∧ ¬ ['%', '+'] <:+: text := by
  constructor
  · intro h
    constructor
    · intro front behind htext
      obtain ⟨high, low, rest, hbehind, hhigh, hlow⟩ := h front behind htext
      exact ⟨high, low, rest, hbehind, .inl hhigh, hlow⟩
    · rintro ⟨front, behind, htext⟩
      obtain ⟨high, low, rest, hbehind, hhigh, -⟩ := h front ('+' :: behind) (by rw [← htext, List.append_assoc]; rfl)
      cases hbehind
      exact absurd hhigh (by decide)
  · rintro ⟨h, hplus⟩ front behind htext
    obtain ⟨high, low, rest, rfl, hhigh | rfl, hlow⟩ := h front behind htext
    · exact ⟨high, low, rest, rfl, hhigh, hlow⟩
    · exact absurd ⟨front, low :: rest, by rw [htext, List.append_assoc]; rfl⟩ hplus

end

/-- Which pairs are read, and as which byte. -/
theorem byteOfHex?_eq_some_iff {high low : Char} {b : UInt8} :
    byteOfHex? high low = some b ↔ Signed high low ∧ pairByte high low = b := by
  have hplus : ¬ isDigitOf 16 '+' := by decide
  unfold byteOfHex? Signed pairByte
  by_cases hlow : isDigitOf 16 low
  · by_cases hsign : high = '+'
    · subst hsign
      simp [hlow, hplus, digitsValue]
    · by_cases hhigh : isDigitOf 16 high
      · simp [hlow, hsign, hhigh, digitsValue]
      · simp [hlow, hsign, hhigh]
  · simp [hlow]

/-- The bytes of a text are read if all its percent signs stand in front of pairs. -/
theorem percentBytes?_eq_some_iff (text : List Char) (bs : List UInt8) :
    percentBytes? text = some bs ↔ Escaped Signed text ∧ replaced text = bs := by
  fun_induction percentBytes? text generalizing bs with
  | case1 => simp [escaped_nil, replaced]
  | case2 high low rest ih =>
      rw [escaped_percent Signed.ne_percent, replaced]
      constructor
      · intro h
        obtain ⟨b, hb, h⟩ := Option.bind_eq_some_iff.1 h
        obtain ⟨bs', hbs, h⟩ := Option.bind_eq_some_iff.1 h
        obtain ⟨hpair, rfl⟩ := byteOfHex?_eq_some_iff.1 hb
        obtain ⟨hrest, rfl⟩ := (ih bs').1 hbs
        exact ⟨⟨hpair, hrest⟩, Option.some.inj h⟩
      · rintro ⟨⟨hpair, hrest⟩, rfl⟩
        rw [byteOfHex?_eq_some_iff.2 ⟨hpair, rfl⟩, (ih _).2 ⟨hrest, rfl⟩]
        rfl
  | case3 rest hshort =>
      -- Fewer than two characters stand behind the sign.
      simp only [reduceCtorEq, false_iff]
      rintro ⟨h, -⟩
      obtain ⟨high, low, rest', rfl, -⟩ := (escaped_cons.1 h).1 rfl
      exact hshort high low rest' rfl rfl
  | case4 c rest hshort hc ih =>
      rw [escaped_cons_of_ne hc, replaced]
      · constructor
        · intro h
          obtain ⟨bs', hbs, h⟩ := Option.bind_eq_some_iff.1 h
          obtain ⟨hrest, rfl⟩ := (ih bs').1 hbs
          exact ⟨hrest, Option.some.inj h⟩
        · rintro ⟨hrest, rfl⟩
          rw [(ih _).2 ⟨hrest, rfl⟩]
          rfl
      · exact fun _ _ _ h _ => hc h

/-- A text is decoded to another one if all its percent signs stand in front of pairs and it stands for the bytes of
the other one. The pairs are two digits each, except for those that start with a plus sign. -/
theorem percentDecode?_eq_some_iff (text decoded : String) :
    (percentDecode? text = some decoded ↔
      Escaped Signed text.toList ∧ replaced text.toList = bytes decoded.toList) ∧
    (Escaped Digits text.toList ↔ Escaped Signed text.toList ∧ ¬ ['%', '+'] <:+: text.toList) := by
  refine ⟨?_, escaped_digits_iff⟩
  unfold percentDecode?
  rw [Option.bind_eq_some_iff]
  constructor
  · rintro ⟨bs, hbs, h⟩
    obtain ⟨hescaped, rfl⟩ := (percentBytes?_eq_some_iff _ _).1 hbs
    exact ⟨hescaped, fromUTF8?_eq_some_iff.1 h⟩
  · rintro ⟨hescaped, hreplaced⟩
    exact ⟨_, (percentBytes?_eq_some_iff _ _).2 ⟨hescaped, rfl⟩, fromUTF8?_eq_some_iff.2 hreplaced⟩

/-- A percent sign in front of a plus sign and a digit is read as a byte. -/
theorem plusSign_decodes : ¬ ∀ text decoded : String, percentDecode? text = some decoded ↔
    Escaped Digits text.toList ∧ replaced text.toList = bytes decoded.toList := by
  intro h
  have hplus : percentDecode? "%+5" = some "\u0005" := by
    unfold percentDecode?
    rw [Option.bind_eq_some_iff]
    exact ⟨[5], by decide, fromUTF8?_eq_some_iff.2 (by decide)⟩
  have hescaped : Escaped Digits "%+5".toList := ((h _ _).1 hplus).1
  exact (escaped_digits_iff.1 hescaped).2 (by decide)

/-! ## Bytes -/

/-- The digit for a number below 16. -/
def hexDigit (n : Nat) : Char := Char.ofNat (if n < 10 then 48 + n else 55 + n)

theorem percentByte_eq (b : UInt8) : percentByte b = ['%', hexDigit (b.toNat / 16), hexDigit (b.toNat % 16)] := rfl

theorem digitValue_hexDigit : ∀ n < 16, digitValue (hexDigit n) = n := by decide

/-- No digit is one of the signs that mean something in a query or in an encoded text. -/
theorem hexDigit_ne_sign : ∀ n < 16, ∀ c ∈ ['&', '=', '%', '+'], hexDigit n ≠ c := by
  have hsigns : ∀ n < 16, hexDigit n ∉ ['&', '=', '%', '+'] := by decide
  rintro n hn _ hc rfl
  exact hsigns n hn hc

theorem byteOfHex?_hexDigit {high low : Nat} (hhigh : high < 16) (hlow : low < 16) :
    byteOfHex? (hexDigit high) (hexDigit low) = some (UInt8.ofNat (high * 16 + low)) := by
  have hplus : hexDigit high ≠ '+' := hexDigit_ne_sign high hhigh '+' (by decide)
  unfold byteOfHex? isDigitOf
  rw [digitValue_hexDigit low hlow, digitValue_hexDigit high hhigh, if_pos (decide_eq_true hlow), if_neg hplus,
    if_pos (decide_eq_true hhigh)]

theorem percentBytes?_percentByte (b : UInt8) (rest : List Char) :
    percentBytes? (percentByte b ++ rest) = (percentBytes? rest).map (b :: ·) := by
  have hb : b.toNat < 256 := b.toNat_lt
  have hdigits : byteOfHex? (hexDigit (b.toNat / 16)) (hexDigit (b.toNat % 16)) = some b := by
    rw [byteOfHex?_hexDigit (by omega) (by omega), Nat.div_add_mod', UInt8.ofNat_toNat]
  rw [percentByte_eq]
  show (byteOfHex? _ _).bind (fun b => (percentBytes? rest).bind fun bs => some (b :: bs)) = _
  rw [hdigits]
  cases percentBytes? rest <;> rfl

theorem percentBytes?_flatMap (bs : List UInt8) (rest : List Char) :
    percentBytes? (bs.flatMap percentByte ++ rest) = (percentBytes? rest).map (bs ++ ·) := by
  induction bs with
  | nil => exact Option.map_id'.symm
  | cons b bs ih =>
      rw [List.flatMap_cons, List.append_assoc, percentBytes?_percentByte, ih, Option.map_map]
      rfl

/-! ## Texts -/

/-- The signs of queries and of encoded texts do not stand for themselves. -/
theorem isUnreserved_sign : ∀ c ∈ ['&', '=', '%', '+'], isUnreserved c = false := by
  intro c hc
  simp only [List.mem_cons, List.not_mem_nil, or_false] at hc
  rcases hc with rfl | rfl | rfl | rfl <;> rfl

theorem percentBytes?_encodeChar (c : Char) (rest : List Char) :
    percentBytes? (encodeChar c ++ rest) = (percentBytes? rest).map (String.utf8EncodeChar c ++ ·) := by
  unfold encodeChar
  split
  · next hplain =>
    have hc : c ≠ '%' := by
      rintro rfl
      cases hplain
    have hstep : percentBytes? (c :: rest) = (percentBytes? rest).bind fun bs =>
        some (String.utf8EncodeChar c ++ bs) := by
      rw [percentBytes?, if_neg hc]
      · rfl
      · exact fun _ _ _ h _ => hc h
    rw [List.singleton_append, hstep]
    cases percentBytes? rest <;> rfl
  · exact percentBytes?_flatMap _ rest

/-- The bytes of an encoded text are those of the text. -/
theorem percentBytes?_flatMap_encodeChar (cs : List Char) :
    percentBytes? (cs.flatMap encodeChar) = some (bytes cs) := by
  induction cs with
  | nil => rfl
  | cons c cs ih => rw [List.flatMap_cons, percentBytes?_encodeChar, ih]; rfl

/-- What was encoded is read back. -/
theorem percentDecode_percentEncode (text : String) : percentDecode? (percentEncode text) = some text := by
  unfold percentDecode? percentEncode
  rw [String.toList_ofList, percentBytes?_flatMap_encodeChar]
  exact fromUTF8?_eq_some_iff.2 rfl

/-- An encoded text holds no sign that separates the parts of a query. -/
theorem not_mem_percentEncode {sign : Char} (hsign : sign ∈ ['&', '=']) (text : String) :
    sign ∉ (percentEncode text).toList := by
  have hmem : sign ∈ ['&', '=', '%', '+'] := List.mem_append_left ['%', '+'] hsign
  unfold percentEncode
  rw [String.toList_ofList, List.mem_flatMap]
  rintro ⟨c, -, hc⟩
  unfold encodeChar at hc
  split at hc
  · next hplain =>
    cases List.mem_singleton.1 hc
    rw [isUnreserved_sign sign hmem] at hplain
    cases hplain
  · obtain ⟨b, -, hb⟩ := List.mem_flatMap.1 hc
    have hlt : b.toNat < 256 := b.toNat_lt
    rw [percentByte_eq, List.mem_cons, List.mem_cons, List.mem_singleton] at hb
    rcases hb with rfl | rfl | rfl
    · revert hsign
      decide
    · exact hexDigit_ne_sign _ (by omega) _ hmem rfl
    · exact hexDigit_ne_sign _ (by omega) _ hmem rfl

/-! ## Queries -/

/-- The text of an entry of a query. -/
def queryEntry (entry : String × String) : String := percentEncode entry.1 ++ "=" ++ percentEncode entry.2

/-- A query with given entries. -/
def query (entries : List (String × String)) : String := "&".intercalate (entries.map queryEntry)

/-- An entry of a query as it is read: both sides of the first equals sign, decoded. -/
def readEntry? (text : List Char) : Option (String × String) :=
  match text.dropWhile (· ≠ '=') with
  | [] => none
  | _ :: value => do
    return (← percentDecode? (String.ofList (text.takeWhile (· ≠ '='))), ← percentDecode? (String.ofList value))

/-- The entries of a query as it is read: what stands between ampersands. -/
def readQuery? (text : String) : Option (List (String × String)) := (text.toList.splitOn '&').mapM readEntry?

theorem toList_queryEntry (entry : String × String) : (queryEntry entry).toList =
    (percentEncode entry.1).toList ++ '=' :: (percentEncode entry.2).toList := by
  unfold queryEntry
  rw [String.toList_append, String.toList_append, List.append_assoc]
  rfl

theorem readEntry?_queryEntry (entry : String × String) : readEntry? (queryEntry entry).toList = some entry := by
  have hkey : ∀ c ∈ (percentEncode entry.1).toList, decide (c ≠ '=') = true := by
    intro c hc
    refine decide_eq_true ?_
    rintro rfl
    exact not_mem_percentEncode (by decide) entry.1 hc
  unfold readEntry?
  rw [toList_queryEntry, List.dropWhile_append_of_pos hkey, List.takeWhile_append_of_pos hkey]
  simp [percentDecode_percentEncode]

theorem not_mem_queryEntry (entry : String × String) : '&' ∉ (queryEntry entry).toList := by
  rw [toList_queryEntry, List.mem_append, List.mem_cons]
  rintro (h | h | h)
  · exact not_mem_percentEncode (by decide) _ h
  · cases h
  · exact not_mem_percentEncode (by decide) _ h

/-- The entries of a query are the ones that it was made of. -/
theorem readQuery?_query {entries : List (String × String)} (h : entries ≠ []) :
    readQuery? (query entries) = some entries := by
  have hparts : (query entries).toList.splitOn '&' = entries.map fun entry => (queryEntry entry).toList := by
    unfold query
    rw [String.toList_intercalate, List.map_map]
    refine List.splitOn_intercalate '&' ?_ (mt List.map_eq_nil_iff.1 h)
    intro part hpart
    obtain ⟨entry, -, rfl⟩ := List.mem_map.1 hpart
    exact not_mem_queryEntry entry
  have hread : readEntry? ∘ (fun entry => (queryEntry entry).toList) = some := by
    funext entry
    rw [Function.comp_apply, readEntry?_queryEntry]
  unfold readQuery?
  rw [hparts, List.mapM_map, hread]
  exact (List.mapM_pure (m := Option) (f := id)).trans (congrArg some (List.map_id entries))

end FieldScript.Text
