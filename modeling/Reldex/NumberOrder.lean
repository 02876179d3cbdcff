import Reldex.NumberParsing

/-! The order of numbers and their conversion to integers. `cmp` looks at signs, exponents and digits,
`toI128` multiplies the digits up under checked arithmetic; both are about the rational that a
canonical number denotes. -/
namespace Reldex.Number
open List Nat

section

/-- The comparison of magnitudes in `Ord`. -/
def cmpMagnitude (a b : Number) : Ordering :=
  match a.len,b.len with
  | 0,0 => .eq
  | 0,_ => .lt
  | _,0 => .gt
  | _,_ => (compare a.exponent b.exponent).then (List.compareLex compare a.run b.run)

def cmp (a b : Number) : Ordering :=
  match a.negative,b.negative with
  | false,true => .gt
  | true,false => .lt
  | negative,_ => if negative then (a.cmpMagnitude b).swap else a.cmpMagnitude b

variable {a b : Number}

def magnitude (n : Number) : ℚ := Decimal.value n.run n.exponent

theorem value_eq (n : Number) : n.value = Decimal.signed n.negative n.magnitude := rfl

theorem Canonical.run_ne_nil (canonical : a.Canonical) (some : a.len ≠ 0) : a.run ≠ [] := by
  intro none
  rw [← canonical.length,none] at some
  exact some rfl

theorem Canonical.magnitude_zero (canonical : a.Canonical) (none : a.len = 0) : a.magnitude = 0 := by
  have empty : a.run = [] := eq_nil_of_length_eq_zero (canonical.length.trans none)
  rw [magnitude,empty,Decimal.value_nil]

theorem Canonical.magnitude_pos (canonical : a.Canonical) (some : a.len ≠ 0) : 0 < a.magnitude :=
  canonical.normal.value_pos (canonical.run_ne_nil some) a.exponent

theorem Canonical.magnitude_lt (ca : a.Canonical) (cb : b.Canonical) (some : b.len ≠ 0)
    (less : a.exponent < b.exponent) : a.magnitude < b.magnitude := by
  calc a.magnitude < 10 ^ a.exponent := Decimal.value_lt ca.normal.digits a.exponent
    _ ≤ 10 ^ (b.exponent - 1) := zpow_le_zpow_right₀ (by norm_num) (by omega)
    _ ≤ b.magnitude := (cb.normal.value_bounds (cb.run_ne_nil some) b.exponent).1

theorem cmpMagnitude_eq (ca : a.Canonical) (cb : b.Canonical) : a.cmpMagnitude b = compare a.magnitude b.magnitude := by
  unfold cmpMagnitude
  split
  · next none none' =>
    rw [ca.magnitude_zero none,cb.magnitude_zero none']
    exact (compare_eq_iff_eq.mpr rfl).symm
  · next none some =>
    rw [ca.magnitude_zero none]
    exact (compare_lt_iff_lt.mpr (cb.magnitude_pos some)).symm
  · next none some =>
    rw [cb.magnitude_zero none]
    exact (compare_gt_iff_gt.mpr (ca.magnitude_pos some)).symm
  · next someA someB =>
    rcases lt_trichotomy a.exponent b.exponent with less | same | more
    · rw [compare_lt_iff_lt.mpr less,compare_lt_iff_lt.mpr (ca.magnitude_lt cb (by omega) less)]
      rfl
    · rw [compare_eq_iff_eq.mpr same,magnitude,magnitude,same]
      exact Decimal.compareLex_value ca.normal.digits cb.normal.digits ca.normal.last cb.normal.last b.exponent
    · rw [compare_gt_iff_gt.mpr more,compare_gt_iff_gt.mpr (cb.magnitude_lt ca (by omega) more)]
      rfl

theorem compare_neg (x y : ℚ) : compare (-x) (-y) = (compare x y).swap := by
  rcases lt_trichotomy x y with less | rfl | more
  · rw [compare_lt_iff_lt.mpr less,compare_gt_iff_gt.mpr (neg_lt_neg less)]
    rfl
  · rw [compare_eq_iff_eq.mpr rfl,compare_eq_iff_eq.mpr rfl]
    rfl
  · rw [compare_gt_iff_gt.mpr more,compare_lt_iff_lt.mpr (neg_lt_neg more)]
    rfl

theorem magnitude_nonneg (n : Number) : 0 ≤ n.magnitude := Decimal.value_nonneg ..

theorem Canonical.value_neg (canonical : a.Canonical) (negative : a.negative = true) : a.value < 0 := by
  have nonzero : 0 < a.magnitude := lt_of_le_of_ne a.magnitude_nonneg (canonical.negative_magnitude negative).symm
  rw [value_eq,negative]
  exact neg_lt_zero.mpr nonzero

theorem Canonical.value_zero (canonical : a.Canonical) (none : a.len = 0) : a.value = 0 := by
  rw [value_eq,canonical.magnitude_zero none]
  cases a.negative <;> simp [Decimal.signed]

theorem abs_value (n : Number) : |n.value| = n.magnitude := by
  rw [value_eq,Decimal.signed]
  split
  · rw [abs_neg,abs_of_nonneg n.magnitude_nonneg]
  · rw [abs_of_nonneg n.magnitude_nonneg]

theorem value_nonneg_of (positive : a.negative = false) : 0 ≤ a.value := by
  rw [value_eq,positive]
  exact a.magnitude_nonneg

/-- `cmp` is the order of the rationals, and equal in this order means equal. -/
theorem cmp_is_numeric_order (a b : Number) (ca : a.Canonical) (cb : b.Canonical) :
    a.cmp b = compare a.value b.value ∧ (a.cmp b = .eq ↔ a = b) := by
  have order : a.cmp b = compare a.value b.value := by
    cases signA : a.negative with
    | false =>
      cases signB : b.negative with
      | false =>
        simp only [cmp,signA,signB,value_eq,Decimal.signed]
        exact cmpMagnitude_eq ca cb
      | true =>
        have less : b.value < a.value := lt_of_lt_of_le (cb.value_neg signB) (value_nonneg_of signA)
        simp only [cmp,signA,signB]
        exact (compare_gt_iff_gt.mpr less).symm
    | true =>
      cases signB : b.negative with
      | false =>
        have less : a.value < b.value := lt_of_lt_of_le (ca.value_neg signA) (value_nonneg_of signB)
        simp only [cmp,signA,signB]
        exact (compare_lt_iff_lt.mpr less).symm
      | true =>
        simp only [cmp,signA,signB,value_eq,Decimal.signed,↓reduceIte,compare_neg,cmpMagnitude_eq ca cb]
  refine ⟨order,?_⟩
  rw [order,compare_eq_iff_eq]
  exact ⟨fun same => ca.eq_of_value cb same,fun same => by rw [same]⟩

/-- Twelve and twelve and a half, of which the digits of one begin those of the other. -/
theorem prefix_is_smaller : cmp ⟨pad [1,2],2,2,false⟩ ⟨pad [1,2,5],3,2,false⟩ = .lt ∧
    value ⟨pad [1,2],2,2,false⟩ < value ⟨pad [1,2,5],3,2,false⟩ := by
  have digits : Decimal.Normal [1,2] := ⟨by decide,by decide,by decide⟩
  have longer : Decimal.Normal [1,2,5] := ⟨by decide,by decide,by decide⟩
  have twelve : Canonical ⟨pad [1,2],2,2,false⟩ := (pad_canonical digits (by decide) (by decide) (by decide) false).1
  have more : Canonical ⟨pad [1,2,5],3,2,false⟩ := (pad_canonical longer (by decide) (by decide) (by decide) false).1
  have less : cmp ⟨pad [1,2],2,2,false⟩ ⟨pad [1,2,5],3,2,false⟩ = .lt := by decide
  exact ⟨less,compare_lt_iff_lt.mp ((cmp_is_numeric_order _ _ twelve more).1.symm.trans less)⟩

end

def i128Limit : Nat := 2^127
def i64Limit : Nat := 2^63

def checkedI128 (n : Int) : Option Int := if -i128Limit ≤ n ∧ n < i128Limit then some n else none

def pushDigit (value : Int) (digit : Nat) : Option Int := do
  let tens ← checkedI128 (value * 10)
  checkedI128 (tens + digit)

/-- The loop that appends the zeros behind the digits. -/
def timesTen : Nat → Int → Option Int
  | 0,value => some value
  | zeros + 1,value => do timesTen zeros (← checkedI128 (value * 10))

def toI128 (n : Number) : Option Int :=
  if n.len = 0 then some 0 else
  let digitCount : Int := n.len
  if n.exponent < digitCount then none else do
    let value ← n.run.foldlM pushDigit 0
    let value ← timesTen (n.exponent - digitCount).toNat value
    return if n.negative then -value else value

/-- `i64::try_from(value).ok()`. -/
def narrowI64 (value : Int) : Option Int := if -i64Limit ≤ value ∧ value < i64Limit then some value else none
def toI64 (n : Number) : Option Int := n.toI128.bind narrowI64

variable {n : Number}

theorem checkedI128_eq (value : Nat) : checkedI128 value = if value < i128Limit then some (value : Int) else none := by
  unfold checkedI128
  split <;> split <;> first | rfl | omega

theorem pushDigit_eq (value digit : Nat) :
    pushDigit value digit = if value * 10 + digit < i128Limit then some ((value * 10 + digit : Nat) : Int) else none := by
  have tens : checkedI128 ((value : Int) * 10) = checkedI128 ((value * 10 : Nat) : Int) := by simp
  rw [pushDigit,tens,checkedI128_eq]
  by_cases fits : value * 10 < i128Limit
  · have sum : ((value * 10 : Nat) : Int) + digit = ((value * 10 + digit : Nat) : Int) := by omega
    rw [if_pos fits,← checkedI128_eq,Option.bind_eq_bind,Option.bind_some,sum]
  · rw [if_neg fits,if_neg (by omega)]
    rfl

/-- The loop gives the number that the digits spell, if that fits: no value on the way is larger. -/
theorem foldlM_pushDigit (ds : List Nat) (start : Nat) (fits : start < i128Limit) :
    ds.foldlM pushDigit start = if start * 10 ^ ds.length + Decimal.coefficient ds < i128Limit
      then some ((start * 10 ^ ds.length + Decimal.coefficient ds : Nat) : Int) else none := by
  induction ds generalizing start with
  | nil => simp [fits]
  | cons d ds ih =>
    have spelled : start * 10 ^ (d :: ds).length + Decimal.coefficient (d :: ds) =
        (start * 10 + d) * 10 ^ ds.length + Decimal.coefficient ds := by
      rw [Decimal.coefficient_cons,length_cons]
      ring
    rw [foldlM_cons,pushDigit_eq,spelled]
    by_cases next : start * 10 + d < i128Limit
    · rw [if_pos next]
      exact ih _ next
    · have grown : start * 10 + d ≤ (start * 10 + d) * 10 ^ ds.length := Nat.le_mul_of_pos_right _ (by positivity)
      rw [if_neg next,if_neg (by omega)]
      rfl

theorem timesTen_eq (zeros value : Nat) :
    timesTen zeros value = (replicate zeros 0).foldlM pushDigit (value : Int) := by
  induction zeros generalizing value with
  | zero => rfl
  | succ zeros ih =>
    have tens : checkedI128 ((value : Int) * 10) = pushDigit value 0 := by
      rw [pushDigit_eq,add_zero,← checkedI128_eq]
      simp
    rw [timesTen,replicate_succ,foldlM_cons,tens,pushDigit_eq]
    split
    · exact ih _
    · rfl

theorem loops_eq (ds : List Nat) (zeros : Nat) : (do let value ← ds.foldlM pushDigit 0; timesTen zeros value) =
      if Decimal.coefficient (ds ++ replicate zeros 0) < i128Limit
      then some (Decimal.coefficient (ds ++ replicate zeros 0) : Int) else none := by
  have room : 0 < i128Limit := by decide
  have whole := foldlM_pushDigit (ds ++ replicate zeros 0) 0 room
  have digits := foldlM_pushDigit ds 0 room
  simp only [zero_mul,zero_add,cast_zero] at whole digits
  rw [← whole,foldlM_append,digits]
  split
  · exact timesTen_eq zeros _
  · rfl

def coefficient (n : Number) : Nat :=
  Decimal.coefficient (n.run ++ replicate (n.exponent - n.run.length).toNat 0)

theorem toI128_eq (canonical : n.Canonical) (some : n.len ≠ 0) (reach : (n.run.length : Int) ≤ n.exponent) :
    n.toI128 = if n.coefficient < i128Limit
      then Option.some (if n.negative then -(n.coefficient : Int) else n.coefficient) else none := by
  have loops := loops_eq n.run (n.exponent - n.run.length).toNat
  rw [toI128,if_neg some]
  simp only [← canonical.length,not_lt.mpr reach,↓reduceIte]
  rw [← bind_assoc,loops]
  unfold coefficient
  split <;> rfl

theorem value_integer (reach : (n.run.length : Int) ≤ n.exponent) :
    n.value = ((if n.negative then -(n.coefficient : Int) else n.coefficient : Int) : ℚ) := by
  rw [value_eq,magnitude,Decimal.value_of_le reach,Decimal.signed,coefficient]
  split <;> simp

theorem Canonical.not_integer (canonical : n.Canonical) (some : n.len ≠ 0)
    (short : n.exponent < n.run.length) (v : Int) : n.value ≠ v := by
  intro same
  refine absurd ((canonical.normal.integer_iff (canonical.run_ne_nil some) n.exponent).mp ?_) (not_le.mpr short)
  rw [value_eq,Decimal.signed] at same
  split at same
  · exact ⟨-v,by push_cast; rw [← same,neg_neg]; rfl⟩
  · exact ⟨v,same⟩

/-- `toI128` gives the integer that a number denotes, if its magnitude is at most `i128::MAX`. -/
theorem toI128_eq_some_iff (canonical : n.Canonical) (v : Int) :
    n.toI128 = some v ↔ n.value = v ∧ v.natAbs < i128Limit := by
  by_cases none : n.len = 0
  · rw [toI128,if_pos none,canonical.value_zero none,Option.some.injEq]
    constructor
    · rintro rfl
      exact ⟨by simp,by decide⟩
    · rintro ⟨same,_⟩
      exact_mod_cast same
  · by_cases reach : (n.run.length : Int) ≤ n.exponent
    · rw [toI128_eq canonical none reach,value_integer reach,Int.cast_inj]
      have size : (if n.negative then -(n.coefficient : Int) else n.coefficient).natAbs = n.coefficient := by
        split <;> simp
      constructor
      · intro found
        split at found
        · next fits =>
          obtain rfl := Option.some.inj found
          exact ⟨rfl,size.symm ▸ fits⟩
        · cases found
      · rintro ⟨rfl,fits⟩
        rw [size] at fits
        rw [if_pos fits]
    · have short : n.exponent < n.run.length := not_le.mp reach
      refine ⟨fun found => ?_,fun denotes => absurd denotes.1 (canonical.not_integer none short v)⟩
      rw [toI128,if_neg none] at found
      simp only [← canonical.length,short,↓reduceIte] at found
      cases found

theorem toI64_eq_some_iff (canonical : n.Canonical) (v : Int) :
    n.toI64 = some v ↔ n.value = v ∧ -i64Limit ≤ v ∧ v < i64Limit := by
  have wider : i64Limit < i128Limit := by decide
  rw [toI64,Option.bind_eq_some_iff]
  constructor
  · rintro ⟨w,found,narrowed⟩
    unfold narrowI64 at narrowed
    split at narrowed
    · next range =>
      obtain rfl := Option.some.inj narrowed
      exact ⟨((toI128_eq_some_iff canonical w).mp found).1,range⟩
    · cases narrowed
  · rintro ⟨same,range⟩
    refine ⟨v,(toI128_eq_some_iff canonical v).mpr ⟨same,by omega⟩,?_⟩
    exact if_pos range

/-- The conversion of a number is exact unless the number is `i128::MIN`, whose magnitude does not fit
the accumulator; to the narrower type it is always exact. -/
theorem toI128_exact_iff (n : Number) (canonical : n.Canonical) :
    ((∀ v : Int, n.toI128 = some v ↔ n.value = v ∧ -i128Limit ≤ v ∧ v < i128Limit) ↔
      n.value ≠ ((-i128Limit : Int) : ℚ)) ∧
    (∀ v : Int, n.toI64 = some v ↔ n.value = v ∧ -i64Limit ≤ v ∧ v < i64Limit) ∧
    ∀ v : Int, -i128Limit ≤ v → v < i128Limit →
      ∃ m, tryFromSigned v = .ok m ∧ (m.toI128 = some v ↔ v ≠ -i128Limit) := by
  have room : 0 < i128Limit := by decide
  refine ⟨⟨fun exact least => ?_,fun other v => ?_⟩,toI64_eq_some_iff canonical,fun v lower upper => ?_⟩
  · have found := (exact (-i128Limit)).mpr ⟨least,le_refl _,by omega⟩
    have fits := ((toI128_eq_some_iff canonical _).mp found).2
    omega
  · rw [toI128_eq_some_iff canonical]
    refine and_congr_right fun same => ?_
    have apart : v ≠ -i128Limit := fun least => other (least ▸ same)
    omega
  · obtain ⟨m,built,canonical,value⟩ := tryFromSigned_exact lower upper
    refine ⟨m,built,?_⟩
    rw [toI128_eq_some_iff canonical]
    constructor
    · rintro ⟨_,fits⟩
      omega
    · intro apart
      exact ⟨value,by omega⟩

theorem greatest_i128_is_exact : ∃ n, tryFromSigned (i128Limit - 1) = .ok n ∧ n.Canonical ∧
    n.value = ((i128Limit - 1 : Int) : ℚ) ∧ n.toI128 = some (i128Limit - 1) := by
  obtain ⟨n,built,canonical,value⟩ := tryFromSigned_exact (v := i128Limit - 1) (by decide) (by decide)
  have apart : n.value ≠ ((-i128Limit : Int) : ℚ) := by
    rw [value]
    exact_mod_cast (by decide : (i128Limit - 1 : Int) ≠ -i128Limit)
  refine ⟨n,built,canonical,value,?_⟩
  exact (((toI128_exact_iff n canonical).1.mpr apart) _).mpr ⟨value,by decide,by decide⟩

/-- `i128::MIN` becomes a number that denotes it, and that number is refused on the way back. -/
theorem least_i128_is_refused :
    ∃ n, tryFromSigned (-i128Limit) = .ok n ∧ n.Canonical ∧ n.value = ((-i128Limit : Int) : ℚ) ∧ n.toI128 = none := by
  have room : 0 < i128Limit := by decide
  obtain ⟨n,built,canonical,value⟩ := tryFromSigned_exact (v := -i128Limit) (by decide) (by decide)
  refine ⟨n,built,canonical,value,?_⟩
  cases found : n.toI128 with
  | none => rfl
  | some v =>
    obtain ⟨same,fits⟩ := (toI128_eq_some_iff canonical v).mp found
    have least : v = -i128Limit := by exact_mod_cast same.symm.trans value
    omega

end Reldex.Number
