import Reldex.Segments
import Reldex.NumberOrder

/-! A scaled number is an exact view of a number. `fromNumber` succeeds exactly where the scale leaves
no fraction and the mantissa fits, and what a scaled number denotes is shown and read back unchanged. -/
namespace Reldex.ScaledNumber
open Decimal Option Nat

section
variable {n : Number} {s : Nat}

def scaledMantissa (n : Number) (s : Nat) : Int :=
  if n.negative then -(coefficient n.run * 10 ^ (n.exponent - n.run.length + s).toNat : Nat)
  else (coefficient n.run * 10 ^ (n.exponent - n.run.length + s).toNat : Nat)

theorem scaledMantissa_value (reach : (n.run.length : Int) ≤ n.exponent + s) :
    n.value * 10 ^ s = scaledMantissa n s := by
  have magnitude : Decimal.value n.run n.exponent * 10 ^ s =
      (coefficient n.run * 10 ^ (n.exponent - n.run.length + s).toNat : Nat) := by
    have shift : n.exponent + s - n.run.length = n.exponent - n.run.length + s := by omega
    rw [← zpow_natCast,value_scale,value_of_le reach,coefficient_append,coefficient_zeros,List.length_replicate,
      shift,add_zero]
  rw [Number.value,scaledMantissa]
  cases n.negative
  · exact magnitude.trans (Int.cast_natCast _).symm
  · simp only [signed,↓reduceIte,neg_mul,magnitude]
    push_cast
    rfl

theorem wide_is_large (canonical : n.Canonical) (filled : n.len ≠ 0) (wide : 19 < n.exponent + s) :
    ¬(-2^63 ≤ n.value * 10 ^ s ∧ n.value * 10 ^ s < 2^63) := by
  have least : (10 : ℚ) ^ (19 : Int) ≤ n.magnitude * 10 ^ s := by
    rw [Number.magnitude,← zpow_natCast,value_scale]
    calc (10 : ℚ) ^ (19 : Int) ≤ 10 ^ (n.exponent + s - 1) := zpow_le_zpow_right₀ (by norm_num) (by omega)
      _ ≤ _ := (canonical.normal.value_bounds (canonical.run_ne_nil filled) _).1
  have large : (2 : ℚ) ^ 63 < 10 ^ (19 : Int) := by norm_num
  rintro ⟨low,high⟩
  rw [Number.value_eq] at low high
  cases sign : n.negative <;> simp only [sign,signed,Bool.false_eq_true,↓reduceIte,neg_mul] at low high <;> linarith

theorem toWord_isSome (m : Int) : (toWord m).isSome ↔ -2^63 ≤ m ∧ m < 2^63 := by
  unfold toWord
  split <;> simp_all

variable (canonical : n.Canonical)
include canonical

theorem fromNumber_isSome_of_reach (filled : n.len ≠ 0) (scale : s ≤ 18)
    (reach : (n.run.length : Int) ≤ n.exponent + s) :
    (fromNumber n s).isSome ↔ -2^63 ≤ n.value * 10 ^ s ∧ n.value * 10 ^ s < 2^63 := by
  have small : ¬maxScale < s := not_lt.mpr scale
  have nonzero : ¬n.isZero = true := by simpa [Number.isZero] using filled
  have shift : ¬n.exponent - n.run.length + (s : Int) < 0 := by omega
  by_cases wide : 19 < n.exponent + s
  · have refused : fromNumber n s = none := by
      rw [fromNumber,if_neg small,if_neg nonzero]
      simp only [if_neg shift]
      rw [if_pos (by omega)]
    simp only [refused,isSome_none,Bool.false_eq_true,wide_is_large canonical filled wide]
  · have word : (fromNumber n s).isSome = (toWord (scaledMantissa n s)).isSome := by
      rw [fromNumber,if_neg small,if_neg nonzero]
      simp only [if_neg shift,foldl_coefficient,zero_mul,zero_add,mul_right_iterate]
      rw [if_neg (by omega)]
      change ((toWord (scaledMantissa n s)).bind fun mantissa => new mantissa s).isSome = _
      cases toWord (scaledMantissa n s) with
      | none => rfl
      | some mantissa => simp [new,scale]
    rw [word,toWord_isSome,scaledMantissa_value reach]
    exact_mod_cast Iff.rfl

theorem requiredScale_le_iff (filled : n.len ≠ 0) (scale : s ≤ 18) :
    (∃ k, requiredScale n = some k ∧ k ≤ s) ↔ (n.run.length : Int) ≤ n.exponent + s := by
  have bound : (maxScale : Int) = 18 := rfl
  have nonzero : ¬n.isZero = true := by simpa [Number.isZero] using filled
  rw [canonical.length]
  constructor
  · rintro ⟨k,found,le⟩
    simp only [requiredScale,if_neg nonzero] at found
    split at found
    · have := some.inj found
      omega
    · cases found
  · intro reach
    simp only [requiredScale,if_neg nonzero]
    exact ⟨_,if_pos (by omega),by omega⟩

theorem requiredScale_of_integer (scale : s ≤ 18) {v : Int}
    (integer : n.value * 10 ^ s = v) : ∃ k, requiredScale n = some k ∧ k ≤ s := by
  by_cases empty : n.len = 0
  · exact ⟨0,by simp [requiredScale,Number.isZero,empty],zero_le _⟩
  · rw [requiredScale_le_iff canonical empty scale,
      ← canonical.normal.integer_iff (canonical.run_ne_nil empty),← value_scale,zpow_natCast]
    rw [Number.value_eq,signed] at integer
    split at integer
    · exact ⟨-v,by rw [Int.cast_neg,← integer,neg_mul,neg_neg]; rfl⟩
    · exact ⟨v,integer⟩

theorem fromNumber_isSome_iff (s : Nat) : (fromNumber n s).isSome ↔
    s ≤ 18 ∧ (∃ k, requiredScale n = some k ∧ k ≤ s) ∧ -2^63 ≤ n.value * 10 ^ s ∧ n.value * 10 ^ s < 2^63 := by
  by_cases scale : s ≤ 18
  · have small : ¬maxScale < s := not_lt.mpr scale
    by_cases empty : n.len = 0
    · simp [fromNumber,requiredScale,Number.isZero,empty,small,new,scale,canonical.value_zero empty]
    · rw [requiredScale_le_iff canonical empty scale]
      by_cases reach : (n.run.length : Int) ≤ n.exponent + s
      · simp only [fromNumber_isSome_of_reach canonical empty scale reach,scale,reach,true_and]
      · have refused : fromNumber n s = none := by
          rw [fromNumber,if_neg small,if_neg (by simpa [Number.isZero] using empty)]
          simp only [if_pos (show n.exponent - n.run.length + (s : Int) < 0 by omega)]
        simp [refused,reach]
  · simp [fromNumber,maxScale,not_le.mp scale,scale]

end

section
variable (x : ScaledNumber)

theorem representable : ∃ n : Number, n.Canonical ∧ n.value = x.value := by
  have low := Int64.le_toInt x.mantissa
  have high := Int64.toInt_lt x.mantissa
  obtain ⟨m,_,canonical,same⟩ := Number.tryFromSigned_exact (v := x.mantissa.toInt) (by omega) (by omega)
  by_cases empty : m.len = 0
  · refine ⟨.zero,Number.zero_canonical,?_⟩
    rw [Number.zero_value,value,← same,canonical.value_zero empty,zero_mul]
  · have size : m.magnitude = (x.mantissa.toInt.natAbs : ℚ) := by
      rw [← m.abs_value,same,cast_natAbs,Int.cast_abs]
    obtain ⟨least,most⟩ := canonical.normal.value_bounds (canonical.run_ne_nil empty) m.exponent
    have positive : (10 : ℚ) ^ (0 : Int) < 10 ^ m.exponent := by
      have one : (1 : ℚ) ≤ m.magnitude := by
        have nonzero := canonical.magnitude_pos empty
        rw [size] at nonzero ⊢
        exact_mod_cast nonzero
      exact lt_of_le_of_lt one most
    have small : (10 : ℚ) ^ (m.exponent - 1) < 10 ^ (19 : Int) := by
      have bound : m.magnitude ≤ 2^63 := by
        rw [size]
        exact_mod_cast (by omega : x.mantissa.toInt.natAbs ≤ 2^63)
      exact lt_of_le_of_lt (least.trans bound) (by norm_num)
    rw [zpow_lt_zpow_iff_right₀ (by norm_num)] at positive small
    have scale := x.bounded
    refine ⟨{ m with exponent := m.exponent - x.scale },⟨canonical.length,canonical.padded,canonical.width,canonical.normal,
      ?_,fun none => absurd none empty⟩,?_⟩
    · simp only [minExponent,maxExponent]
      omega
    · rw [value,← same]
      change signed m.negative (Decimal.value m.run (m.exponent - x.scale)) = _
      rw [sub_eq_add_neg,← value_scale,Number.value_eq]
      cases m.negative
      · rfl
      · exact (neg_mul _ _).symm

theorem value_injective {x y : ScaledNumber} (scale : x.scale = y.scale) (same : x.value = y.value) : x = y := by
  have mantissa : x.mantissa.toInt = y.mantissa.toInt := by
    rw [value,value,scale] at same
    exact_mod_cast mul_right_cancel₀ (by positivity) same
  cases x
  cases y
  simp_all [Int64.toInt_inj]

end

/-- `fromNumber` succeeds exactly where the number is exact at the scale and its mantissa fits, and a
scaled number is shown as its number and made from it again. -/
theorem scaled_number_is_exact_view :
    (∀ (v : Number) (s : Nat), v.Canonical → ((fromNumber v s).isSome ↔
      s ≤ 18 ∧ (∃ k, requiredScale v = some k ∧ k ≤ s) ∧ -2^63 ≤ v.value * 10 ^ s ∧ v.value * 10 ^ s < 2^63)) ∧
    ∀ x : ScaledNumber, x.display = x.toNumber.display ∧ fromNumber x.toNumber x.scale = some x := by
  refine ⟨fun v s canonical => fromNumber_isSome_iff canonical s,fun x => ?_⟩
  obtain ⟨n,canonical,same⟩ := x.representable
  rw [toNumber_eq canonical same.symm]
  refine ⟨display_eq canonical same.symm,?_⟩
  have scaled : (fromNumber n x.scale).isSome := by
    have low := Int64.le_toInt x.mantissa
    have high := Int64.toInt_lt x.mantissa
    have integer : n.value * 10 ^ x.scale = x.mantissa.toInt := by
      rw [same,value,mul_assoc,← zpow_natCast,← zpow_add₀ (by norm_num),neg_add_cancel,zpow_zero,mul_one]
    rw [fromNumber_isSome_iff canonical,integer]
    refine ⟨x.bounded,requiredScale_of_integer canonical x.bounded integer,?_,?_⟩
    · exact_mod_cast low
    · exact_mod_cast high
  obtain ⟨y,made⟩ := isSome_iff_exists.mp scaled
  obtain ⟨value,scale⟩ := fromNumber_value canonical made
  rw [made,value_injective scale (value.trans same)]

end Reldex.ScaledNumber
