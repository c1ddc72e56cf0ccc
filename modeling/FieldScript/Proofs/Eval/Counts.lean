import Mathlib
import FieldScript.Eval.Value

/-!
# Counts as truth values

The length of an array is a number, and bodies use it as a truth value. That it counts as true unless it is zero has to
hold of every length, also of those that are rounded.

* `IsFull`: a number that is neither zero nor without a value, told by its parts. Rounding gives such numbers, and they
  stay so when they are stored.
* `Value.isTruthy_ofNat`: a count is true unless it is zero.
-/

namespace FieldScript.Number

open Float.Model Float.Model.UnpackedFloat

/-! ## Rounding -/

/-- A number that is infinite, or has a full mantissa and an exponent from a bound on. -/
inductive IsFull (low : Int) : UnpackedFloat → Prop
  | infinity (s : Sign) : IsFull low (.infinity s)
  | finite (s : Sign) {m : Nat} {e : Int} (hpos : 0 < m) (hm : 2 ^ 52 ≤ m ∧ m < 2 ^ 53) (he : low ≤ e) :
    IsFull low (.finite s m e hpos)

variable {low : Int} {u : UnpackedFloat}

theorem mantissa_shiftRight (em : ExtendedMantissa) (k : Nat) : (em >>> k).mantissa = em.mantissa / 2 ^ k := by
  show (k.repeat ExtendedMantissa.shiftRightOne em).mantissa = _
  induction k with
  | zero => exact (Nat.div_one _).symm
  | succ k ih =>
      show (k.repeat ExtendedMantissa.shiftRightOne em).mantissa / 2 = _
      rw [ih, Nat.div_div_eq_div_mul, Nat.pow_succ]

/-- Rounding to the nearest mantissa never goes below the one at hand. -/
theorem le_roundedMantissa (em : ExtendedMantissa) : em.mantissa ≤ em.roundedMantissa := by
  obtain ⟨m, round, sticky⟩ := em
  cases round <;> cases sticky <;>
    simp only [ExtendedMantissa.roundedMantissa, ExtendedMantissa.accuracy, Accuracy.roundToNearestEven] <;> omega

/-- The leading 53 digits of a mantissa. -/
theorem leading_bounds {m : Nat} (hm : 2 ^ 52 ≤ m) :
    52 ≤ m.log2 ∧ 2 ^ 52 ≤ m / 2 ^ (m.log2 - 52) ∧ m / 2 ^ (m.log2 - 52) < 2 ^ 53 := by
  have hlog : 52 ≤ m.log2 := (Nat.le_log2 (by omega)).2 hm
  have hlow : 2 ^ m.log2 ≤ m := Nat.log2_self_le (by omega)
  have hhigh : m < 2 ^ (m.log2 + 1) := Nat.lt_log2_self
  refine ⟨hlog, ?_, ?_⟩
  · rw [Nat.le_div_iff_mul_le (Nat.two_pow_pos _), ← Nat.pow_add]
    rwa [Nat.add_sub_cancel' hlog]
  · rw [Nat.div_lt_iff_lt_mul (Nat.two_pow_pos _), ← Nat.pow_add]
    rwa [show 53 + (m.log2 - 52) = m.log2 + 1 by omega]

theorem targetExponent_eq (total : Int) : Format.binary64.targetExponent total = max (total - 53) (-1074) := rfl

/-- A mantissa with enough digits is cut to a full one. -/
theorem shiftToTargetExponent_full {m : Nat} {e : Int} (accuracy : Accuracy) (hm : 2 ^ 52 ≤ m) (he : -1074 ≤ e) :
    2 ^ 52 ≤ (shiftToTargetExponent Format.binary64 m e accuracy).1.mantissa ∧
      (shiftToTargetExponent Format.binary64 m e accuracy).1.mantissa < 2 ^ 53 ∧
      e ≤ (shiftToTargetExponent Format.binary64 m e accuracy).2 := by
  obtain ⟨hlog, hlow, hhigh⟩ := leading_bounds hm
  have htarget : Format.binary64.targetExponent (totalExponent m e) = e + (m.log2 - 52 : Nat) := by
    rw [targetExponent_eq, totalExponent]
    omega
  have hshift : (e + (m.log2 - 52 : Nat) - e).toNat = m.log2 - 52 := by omega
  have hmantissa : (ExtendedMantissa.ofMantissaAndAccuracy m accuracy).mantissa = m := by
    rcases accuracy with _ | (_ | _ | _) <;> rfl
  unfold shiftToTargetExponent shiftToExponent
  simp only [htarget, hshift, mantissa_shiftRight, hmantissa]
  exact ⟨hlow, hhigh, by omega⟩

/-- A number whose mantissa has enough digits is rounded to a full one. -/
theorem isFull_roundWithAccuracy (sign : Sign) {m : Nat} {e : Int} (accuracy : Accuracy) (hm : 2 ^ 52 ≤ m)
    (hlow : -1074 ≤ low) (he : low ≤ e) : IsFull low (roundWithAccuracy Format.binary64 sign m e accuracy) := by
  have hmin := Int.le_trans hlow he
  obtain ⟨hleast, -, hle⟩ := shiftToTargetExponent_full accuracy hm hmin
  have hrounded := le_roundedMantissa (shiftToTargetExponent Format.binary64 m e accuracy).1
  obtain ⟨hleast', hmost', hle'⟩ :=
    shiftToTargetExponent_full .exact (Nat.le_trans hleast hrounded) (Int.le_trans hmin hle)
  unfold roundWithAccuracy
  simp only
  rw [dif_neg (by omega)]
  exact .finite _ _ ⟨hleast', hmost'⟩ (by omega)

theorem isFull_mul (s₁ s₂ : Sign) {m₁ m₂ : Nat} {e₁ e₂ : Int} (h₁ : 0 < m₁) (h₂ : 0 < m₂) (hm : 2 ^ 52 ≤ m₁ * m₂)
    (hlow : -1074 ≤ low) (he : low ≤ e₁ + e₂) :
    IsFull low (UnpackedFloat.mul Format.binary64 (.finite s₁ m₁ e₁ h₁) (.finite s₂ m₂ e₂ h₂)) := by
  unfold UnpackedFloat.mul
  exact isFull_roundWithAccuracy _ _ hm hlow he

/-! ## Storing -/

theorem unpack_packedInfinity (spec : Format) (s : Sign) :
    ∃ s', UnpackedFloat.unpack spec (packedInfinity spec s) = .infinity s' := by
  refine ⟨Sign.ofBitVec (unpackSign (packedInfinity spec s)), ?_⟩
  unfold UnpackedFloat.unpack packedInfinity
  simp only [unpackMantissa_packComponents, unpackExponent_packComponents, if_true]
  exact if_pos rfl

/-- A mantissa is stored without its leading digit, which is put back when it is read. -/
theorem toNat_one_append {w m : Nat} (hm : 2 ^ w ≤ m ∧ m < 2 ^ (w + 1)) : (1#1 ++ BitVec.ofNat w m).toNat = m := by
  have hlt : m - 2 ^ w < 2 ^ w := by
    rw [Nat.pow_succ] at hm
    omega
  have hrest : m % 2 ^ w = m - 2 ^ w := by rw [Nat.mod_eq_sub_mod hm.1, Nat.mod_eq_of_lt hlt]
  have hor := Nat.two_pow_add_eq_or_of_lt hlt 1
  rw [Nat.mul_one] at hor
  rw [BitVec.toNat_append, BitVec.toNat_ofNat, BitVec.toNat_ofNat, Nat.one_mod_two_pow Nat.one_pos, Nat.one_shiftLeft,
    hrest, ← hor]
  omega

theorem unpack_packComponents {spec : Format} (s : Sign) {m biased : Nat}
    (hm : 2 ^ spec.mantissaBitsWithoutImplicit ≤ m ∧ m < 2 ^ (spec.mantissaBitsWithoutImplicit + 1))
    (hpos : 0 < biased) (hfits : biased + 1 < 2 ^ spec.exponentBits) :
    ∃ s' h, UnpackedFloat.unpack spec (packComponents spec s (BitVec.ofNat _ biased) (BitVec.ofNat _ m)) =
      .finite s' m (biased - (spec.exponentBias + spec.mantissaBitsWithoutImplicit)) h := by
  have hnat : (BitVec.ofNat spec.exponentBits biased).toNat = biased :=
    (BitVec.toNat_ofNat ..).trans (Nat.mod_eq_of_lt (by omega))
  have hmax : BitVec.ofNat spec.exponentBits biased ≠ -1#_ := by
    intro h
    rw [BitVec.neg_one_eq_allOnes, ← BitVec.toNat_inj, hnat, BitVec.toNat_allOnes] at h
    omega
  have hzero : BitVec.ofNat spec.exponentBits biased ≠ 0#_ := by
    intro h
    rw [← BitVec.toNat_inj, hnat, BitVec.toNat_ofNat, Nat.zero_mod] at h
    omega
  refine ⟨Sign.ofBitVec (unpackSign (packComponents spec s (BitVec.ofNat _ biased) (BitVec.ofNat _ m))), ?_, ?_⟩
  · exact Nat.lt_of_lt_of_le (Nat.two_pow_pos _) hm.1
  · unfold UnpackedFloat.unpack
    simp only [unpackMantissa_packComponents, unpackExponent_packComponents, toNat_one_append hm, hnat]
    rw [if_neg hmax, if_neg hzero]

/-- What is read of a stored number whose mantissa is full: itself, unless its exponent is too large. -/
theorem unpack_pack_finite (spec : Format) (s : Sign) {m : Nat} {e : Int} (hpos : 0 < m)
    (hm : 2 ^ spec.mantissaBitsWithoutImplicit ≤ m ∧ m < 2 ^ (spec.mantissaBitsWithoutImplicit + 1))
    (he : 0 < e + spec.exponentBias + spec.mantissaBitsWithoutImplicit) :
    ∃ s', UnpackedFloat.unpack spec (UnpackedFloat.pack spec (.finite s m e hpos)) = .infinity s' ∨
      ∃ hpos', UnpackedFloat.unpack spec (UnpackedFloat.pack spec (.finite s m e hpos)) = .finite s' m e hpos' := by
  have hlog : m.log2 + 1 = spec.mantissaBits := by
    rw [(Nat.log2_eq_iff (by omega)).2 hm, Format.mantissaBits, Nat.add_comm]
  obtain ⟨biased, hbiased⟩ : ∃ biased : Nat, e + spec.exponentBias + spec.mantissaBitsWithoutImplicit = biased :=
    Int.eq_ofNat_of_zero_le (by omega)
  unfold UnpackedFloat.pack
  rw [hbiased, Int.toNat_natCast]
  by_cases hlarge : 2 ^ spec.exponentBits ≤ biased + 1
  · obtain ⟨s', h⟩ := unpack_packedInfinity spec s
    exact ⟨s', .inl (by rw [if_pos hlarge, h])⟩
  · obtain ⟨s', hpos', h⟩ := unpack_packComponents s hm (show 0 < biased by omega) (by omega)
    obtain rfl : (biased : Int) - (spec.exponentBias + spec.mantissaBitsWithoutImplicit) = e := by omega
    exact ⟨s', .inr ⟨hpos', by rw [if_neg hlarge, if_pos hlog, h]⟩⟩

/-- A full number stays full when it is stored. -/
theorem isFull_unpack_pack (hu : IsFull low u) (hlow : -1074 ≤ low) : IsFull low (Float.Model.pack u).unpack := by
  show IsFull low (UnpackedFloat.unpack Format.binary64 (UnpackedFloat.pack Format.binary64 u))
  cases hu with
  | infinity s =>
      obtain ⟨s', h⟩ := unpack_packedInfinity Format.binary64 s
      rw [UnpackedFloat.pack, h]
      exact .infinity s'
  | @finite s m e hpos hm he =>
      have hbias : Format.binary64.exponentBias = 1023 := by decide
      have hnormal : 0 < e + (Format.binary64.exponentBias : Int) + 52 := by omega
      obtain ⟨s', h | ⟨hpos', h⟩⟩ := unpack_pack_finite Format.binary64 s hpos hm hnormal
      · rw [h]
        exact .infinity s'
      · rw [h]
        exact .finite s' hpos' hm he

/-! ## Counts -/

/-- A positive count below `2 ^ 53` is exact. -/
theorem isFull_ofUInt64 {n : Nat} (hn : 0 < n) (hlt : n < 2 ^ 53) :
    IsFull (-52) (Float.Model.ofUInt64 n.toUInt64).unpack := by
  refine isFull_unpack_pack ?_ (by decide)
  have hnat : n.toUInt64.toNat = n := Nat.mod_eq_of_lt (by omega)
  have hcompare : compare (n : Int) 0 = .gt := by
    rw [Int.compare_eq_gt]
    omega
  have hlog : n.log2 < 53 := (Nat.log2_lt (by omega)).2 hlt
  have htarget : Format.binary64.targetExponent (totalExponent n 0) = (n.log2 : Int) - 52 := by
    rw [targetExponent_eq, totalExponent]
    omega
  have hshift : (0 - ((n.log2 : Int) - 52)).toNat = 52 - n.log2 := by omega
  have hm : 2 ^ 52 ≤ n <<< (52 - n.log2) := by
    calc 2 ^ 52 = 2 ^ n.log2 * 2 ^ (52 - n.log2) := by rw [← Nat.pow_add, Nat.add_sub_cancel' (by omega)]
      _ ≤ n * 2 ^ (52 - n.log2) := Nat.mul_le_mul_right _ (Nat.log2_self_le (by omega))
      _ = n <<< (52 - n.log2) := (Nat.shiftLeft_eq _ _).symm
  unfold UnpackedFloat.ofUInt64 UnpackedFloat.ofNat UnpackedFloat.ofInt UnpackedFloat.normalize UnpackedFloat.round decreaseExponent
  rw [hnat]
  simp only [hcompare, Int.toNat_natCast, htarget, hshift]
  exact isFull_roundWithAccuracy _ _ hm (by decide) (by omega)

/-- Larger counts are rounded. -/
theorem isFull_ofScientific {n : Nat} (hn : 2 ^ 53 ≤ n) : IsFull (-104) (Float.Model.ofScientific n 0).unpack := by
  refine isFull_unpack_pack ?_ (by decide)
  have hbits : Format.binary64.mantissaBits = 53 := by decide
  have hlarge : ¬(0 : Int) < -((2 ^ Format.binary64.exponentBits : Int) + n.log2) := by
    have : (0 : Int) ≤ 2 ^ Format.binary64.exponentBits := by decide
    omega
  have hm : 2 ^ 52 ≤ n <<< Format.binary64.mantissaBits * 10 ^ (0 : Int).toNat := by
    rw [Int.toNat_zero, Nat.pow_zero, Nat.mul_one, Nat.shiftLeft_eq]
    exact Nat.le_trans (by omega) (Nat.le_mul_of_pos_right n (Nat.two_pow_pos _))
  unfold UnpackedFloat.ofScientific
  rw [dif_neg (by omega), if_neg (by decide), if_neg hlarge, if_pos (by decide)]
  exact isFull_mul _ _ _ _ hm (by decide) (by rw [hbits]; decide)

/-- One, as small counts are multiplied by it. -/
theorem unpack_one :
    (Float.ofBits 4607182418800017408).toModel.unpack = .finite .positive (2 ^ 52) (-52) (Nat.two_pow_pos 52) := rfl

/-- The number of a positive count is infinite, or full. -/
theorem isFull_ofNat {n : Nat} (hn : 0 < n) : IsFull (-104) (Float.ofNat n).toModel.unpack := by
  unfold Float.ofNat
  show IsFull _ (Float.ofScientific n false 0).toModel.unpack
  unfold Float.ofScientific
  split
  · next hsmall =>
    show IsFull _ (Float.Model.mul (Float.Model.ofUInt64 n.toUInt64) (Float.ofBits 4607182418800017408).toModel).unpack
    refine isFull_unpack_pack ?_ (by decide)
    rw [unpack_one]
    have h := isFull_ofUInt64 hn hsmall.1
    generalize (Float.Model.ofUInt64 n.toUInt64).unpack = u at h
    cases h with
    | infinity s => exact .infinity _
    | finite s hpos hm he => exact isFull_mul _ _ _ _ (by omega) (by decide) (by omega)
  · next hlarge => exact isFull_ofScientific (by omega)

end FieldScript.Number

namespace FieldScript

open Number Float.Model in
/-- A full number is neither zero nor without a value. -/
theorem Value.isTruthy_of_isFull {low : Int} {x : Float} (h : IsFull low x.toModel.unpack) :
    (Value.number x).isTruthy = true := by
  have hzero : (0 : Float).toModel.unpack = .zero .positive := rfl
  show (!x.toModel.unpack.beq (0 : Float).toModel.unpack && !x.toModel.unpack.isNaN) = true
  rw [hzero]
  generalize x.toModel.unpack = u at h
  cases h with
  | infinity s => cases s <;> rfl
  | finite s => cases s <;> rfl

/-- A count is true unless it is zero. -/
theorem Value.isTruthy_ofNat (n : Nat) : (Value.number (Float.ofNat n)).isTruthy = decide (0 < n) := by
  cases n with
  | zero => rfl
  | succ n => exact Value.isTruthy_of_isFull (Number.isFull_ofNat n.succ_pos)

end FieldScript
