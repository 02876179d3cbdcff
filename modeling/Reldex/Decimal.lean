import Mathlib.Algebra.Order.Field.Power
import Mathlib.Data.List.DropRight
import Mathlib.Data.Nat.Digits.Lemmas
import Mathlib.Tactic.FieldSimp
import Mathlib.Tactic.Positivity

/-! Decimal digit runs, most significant digit first, and the rationals they denote:
`0.d₁…dₙ × 10^e`. A run without outer zeros is determined by its value, and so is a
plain positional decimal without superfluous zeros. -/
namespace Decimal
open List Nat Bool

def coefficient (digits : List Nat) : Nat := ofDigits 10 digits.reverse

/-- The value of `0.d₁…dₙ × 10^exponent`. -/
def value (digits : List Nat) (exponent : Int) : ℚ :=
  coefficient digits * 10 ^ (exponent - digits.length)

def leading (digits : List Nat) : Nat := (digits.takeWhile (· == 0)).length

def significant (digits : List Nat) : List Nat :=
  (digits.dropWhile (· == 0)).rdropWhile (· == 0)

/-- A digit run with neither a leading nor a trailing zero. -/
structure Normal (run : List Nat) : Prop where
  digits : ∀ d ∈ run, d < 10
  first : run.head? ≠ some 0
  last : run.getLast? ≠ some 0

@[simp] theorem coefficient_nil : coefficient [] = 0 := rfl
@[simp] theorem coefficient_singleton (d : Nat) : coefficient [d] = d := by simp [coefficient]

theorem coefficient_append (a b : List Nat) : coefficient (a ++ b) = coefficient a * 10 ^ b.length + coefficient b := by
  simp only [coefficient,reverse_append,ofDigits_append,length_reverse]
  ring

@[simp] theorem coefficient_zeros (k : Nat) : coefficient (replicate k 0) = 0 := by
  simp [coefficient]

theorem coefficient_cons (d : Nat) (ds : List Nat) : coefficient (d :: ds) = d * 10 ^ ds.length + coefficient ds := by
  simpa using coefficient_append [d] ds

/-- Horner's rule, the loop by which a digit run is read into an accumulator. -/
theorem foldl_coefficient (ds : List Nat) (start : Nat) :
    ds.foldl (fun n d => n * 10 + d) start = start * 10 ^ ds.length + coefficient ds := by
  induction ds generalizing start with
  | nil => simp
  | cons d ds ih =>
    rw [foldl_cons,ih,coefficient_cons,length_cons]
    ring

theorem coefficient_lt (small : ∀ d ∈ ds, d < 10) : coefficient ds < 10 ^ ds.length := by
  have bound := ofDigits_lt_base_pow_length (b := 10) (l := ds.reverse) (by decide) (by simpa using small)
  simpa [coefficient] using bound

theorem coefficient_injective (a b : List Nat) (smallA : ∀ d ∈ a, d < 10) (smallB : ∀ d ∈ b, d < 10)
    (length : a.length = b.length) (same : coefficient a = coefficient b) : a = b := by
  have reversed : a.reverse = b.reverse :=
    ofDigits_inj_of_len_eq (b := 10) (by decide) (by simpa using length) (by simpa using smallA)
      (by simpa using smallB) same
  exact reverse_injective reversed

theorem coefficient_ge (first : (d :: ds).head? ≠ some 0) : 10 ^ ds.length ≤ coefficient (d :: ds) := by
  have positive : 1 ≤ d := by simp at first; omega
  rw [coefficient_cons]
  calc 10 ^ ds.length = 1 * 10 ^ ds.length := (one_mul _).symm
    _ ≤ d * 10 ^ ds.length := mul_le_mul_right _ positive
    _ ≤ _ := Nat.le_add_right ..

theorem coefficient_pos (first : ds.head? ≠ some 0) (some : ds ≠ []) : 0 < coefficient ds := by
  cases ds with
  | nil => exact absurd rfl some
  | cons d ds => exact lt_of_lt_of_le (by positivity) (coefficient_ge first)

@[simp] theorem value_nil (e : Int) : value [] e = 0 := by simp [value]

theorem value_nonneg (ds : List Nat) (e : Int) : 0 ≤ value ds e := by
  unfold value; positivity

theorem value_zeros_append (k : Nat) (ds : List Nat) (e : Int) :
    value (replicate k 0 ++ ds) e = value ds (e - k) := by
  simp only [value,coefficient_append,coefficient_zeros,zero_mul,zero_add,length_append,length_replicate,cast_add]
  congr 2
  omega

theorem value_append_zeros (ds : List Nat) (k : Nat) (e : Int) : value (ds ++ replicate k 0) e = value ds e := by
  simp only [value,coefficient_append,coefficient_zeros,add_zero,length_append,length_replicate,
    cast_add,cast_mul,cast_pow,cast_ofNat]
  rw [mul_assoc,← zpow_natCast,← zpow_add₀ (by norm_num)]
  congr 2
  omega

theorem takeWhile_zeros (ds : List Nat) : ds.takeWhile (· == 0) = replicate (leading ds) 0 := by
  apply eq_replicate_of_mem
  intro d member
  simpa using mem_takeWhile_imp member

theorem zeros_behind (ds : List Nat) : ∃ k, ds = ds.rdropWhile (· == 0) ++ replicate k 0 := by
  have zeros : ds.rtakeWhile (· == 0) = replicate (ds.rtakeWhile (· == 0)).length 0 := by
    apply eq_replicate_of_mem
    intro d member
    simpa using mem_rtakeWhile_imp member
  refine ⟨(ds.rtakeWhile (· == 0)).length,?_⟩
  rw [← zeros,rdropWhile_append_rtakeWhile]

theorem significant_split (ds : List Nat) :
    ∃ k, ds = replicate (leading ds) 0 ++ significant ds ++ replicate k 0 := by
  obtain ⟨k,behind⟩ := zeros_behind (ds.dropWhile (· == 0))
  refine ⟨k,?_⟩
  rw [append_assoc,significant,← behind,← takeWhile_zeros,takeWhile_append_dropWhile]

theorem significant_normal (small : ∀ d ∈ ds, d < 10) : Normal (significant ds) where
  digits d member := by
    have inside := IsPrefix.subset (List.rdropWhile_prefix (p := (· == 0)) (l := ds.dropWhile (· == 0))) member
    exact small d (IsSuffix.subset (dropWhile_suffix _) inside)
  first := by
    have front := rdropWhile_prefix (p := (· == 0)) (l := ds.dropWhile (· == 0))
    intro zero
    obtain ⟨behind,whole⟩ := front
    have notZero := head?_dropWhile_not (· == 0) ds
    rw [significant] at zero
    rw [← whole,head?_append,zero] at notZero
    simp at notZero
  last := by
    intro zero
    have present : significant ds ≠ [] := by
      intro none; simp [none] at zero
    have notZero := rdropWhile_last_not (p := (· == 0)) (ds.dropWhile (· == 0)) present
    rw [getLast?_eq_some_getLast present] at zero
    simp only [significant,Option.some.injEq] at zero
    simp [zero] at notZero

theorem value_significant (ds : List Nat) (e : Int) : value (significant ds) (e - leading ds) = value ds e := by
  obtain ⟨k,split⟩ := significant_split ds
  conv_rhs => rw [split]
  rw [value_append_zeros,value_zeros_append]

namespace Normal

theorem value_pos (normal : Normal ds) (some : ds ≠ []) (e : Int) : 0 < value ds e := by
  have positive := coefficient_pos normal.first some
  unfold value
  positivity

theorem value_eq_zero_iff (normal : Normal ds) (e : Int) : value ds e = 0 ↔ ds = [] := by
  constructor
  · intro zero
    by_contra some
    exact absurd zero (normal.value_pos some e).ne'
  · rintro rfl; simp

theorem value_bounds (normal : Normal ds) (some : ds ≠ []) (e : Int) :
    (10 : ℚ) ^ (e - 1) ≤ value ds e ∧ value ds e < 10 ^ e := by
  obtain ⟨d,rest,rfl⟩ := exists_cons_of_ne_nil some
  have below : (coefficient (d :: rest) : ℚ) < 10 ^ ((d :: rest).length : Int) := by
    rw [zpow_natCast]
    exact_mod_cast coefficient_lt normal.digits
  have above : (10 : ℚ) ^ (rest.length : Int) ≤ coefficient (d :: rest) := by
    rw [zpow_natCast]
    exact_mod_cast coefficient_ge normal.first
  have scale : (0 : ℚ) < 10 ^ (e - ((d :: rest).length : Int)) := by positivity
  constructor
  · calc (10 : ℚ) ^ (e - 1)
        = 10 ^ (rest.length : Int) * 10 ^ (e - ((d :: rest).length : Int)) := by
          rw [← zpow_add₀ (by norm_num)]; congr 1; push_cast [length_cons]; ring
      _ ≤ _ := mul_le_mul_of_nonneg_right above scale.le
  · calc value (d :: rest) e
        < 10 ^ ((d :: rest).length : Int) * 10 ^ (e - ((d :: rest).length : Int)) :=
          mul_lt_mul_of_pos_right below scale
      _ = 10 ^ e := by rw [← zpow_add₀ (by norm_num)]; congr 1; omega

variable (a : Normal as) (b : Normal bs)
include a b

theorem exponent_unique (someA : as ≠ []) (someB : bs ≠ []) (same : value as e = value bs f) : e = f := by
  have boundsA := a.value_bounds someA e
  have boundsB := b.value_bounds someB f
  rw [same] at boundsA
  have up := (zpow_lt_zpow_iff_right₀ (by norm_num : (1 : ℚ) < 10)).mp (boundsA.1.trans_lt boundsB.2)
  have down := (zpow_lt_zpow_iff_right₀ (by norm_num : (1 : ℚ) < 10)).mp (boundsB.1.trans_lt boundsA.2)
  omega

private theorem unique_of_le (shorter : as.length ≤ bs.length) (same : value as e = value bs e) : as = bs := by
  -- Pad the shorter run to equal length; the padding would end the longer one in zero.
  set k := bs.length - as.length with padding
  rw [← value_append_zeros as k] at same
  have length : (as ++ replicate k 0).length = bs.length := by simp; omega
  have coefficients : coefficient (as ++ replicate k 0) = coefficient bs := by
    rw [value,value,length] at same
    have scale : (10 : ℚ) ^ (e - (bs.length : Int)) ≠ 0 := by positivity
    exact_mod_cast mul_right_cancel₀ scale same
  have padded := coefficient_injective _ _ (by
    intro d member
    rcases mem_append.mp member with inside | zero
    · exact a.digits d inside
    · rw [eq_of_mem_replicate zero]; decide) b.digits length coefficients
  cases zeros : k with
  | zero => simpa [zeros] using padded
  | succ n =>
    rw [zeros,replicate_succ',← append_assoc] at padded
    exact absurd (by rw [← padded]; simp) b.last

theorem unique (someA : as ≠ []) (someB : bs ≠ []) (same : value as e = value bs f) : as = bs ∧ e = f := by
  obtain rfl := a.exponent_unique b someA someB same
  rcases le_total as.length bs.length with shorter | shorter
  · exact ⟨a.unique_of_le b shorter same,rfl⟩
  · exact ⟨(b.unique_of_le a shorter same.symm).symm,rfl⟩

end Normal

theorem value_cons (d : Nat) (ds : List Nat) (e : Int) : value (d :: ds) e = d * 10 ^ (e - 1) + value ds (e - 1) := by
  have shift : (10 : ℚ) ^ ds.length * 10 ^ (e - 1 - ds.length) = 10 ^ (e - 1) := by
    rw [← zpow_natCast,← zpow_add₀ (by norm_num)]
    congr 1
    omega
  have place : e - ((d :: ds).length : Int) = e - 1 - ds.length := by
    simp only [length_cons]
    omega
  rw [value,value,place,coefficient_cons]
  push_cast
  rw [add_mul,mul_assoc,shift]

theorem value_lt (small : ∀ d ∈ ds, d < 10) (e : Int) : value ds e < 10 ^ e := by
  have below : (coefficient ds : ℚ) < 10 ^ (ds.length : Int) := by
    rw [zpow_natCast]
    exact_mod_cast coefficient_lt small
  calc value ds e < 10 ^ (ds.length : Int) * 10 ^ (e - ds.length) :=
        mul_lt_mul_of_pos_right below (by positivity)
    _ = 10 ^ e := by
      rw [← zpow_add₀ (by norm_num)]
      congr 1
      omega

theorem value_pos_of_last (present : ds ≠ []) (last : ds.getLast? ≠ some 0) (e : Int) : 0 < value ds e := by
  obtain ⟨front,d,rfl⟩ := (eq_nil_or_concat' ds).resolve_left present
  have positive : 0 < d := by
    simp at last
    omega
  have nonzero : 0 < coefficient (front ++ [d]) := by
    rw [coefficient_append,coefficient_singleton]
    exact Nat.lt_add_left _ positive
  exact mul_pos (by exact_mod_cast nonzero) (by positivity)

theorem last_tail {d : Nat} (last : (d :: ds).getLast? ≠ some 0) : ds.getLast? ≠ some 0 := by
  cases ds with
  | nil => simp
  | cons c rest => rwa [getLast?_cons_cons] at last

theorem value_lt_of_head {a b : Nat} {as bs : List Nat} (small : ∀ d ∈ as, d < 10) (less : a < b) (e : Int) :
    value (a :: as) e < value (b :: bs) e := by
  have tail := value_lt small (e - 1)
  have rest := value_nonneg bs (e - 1)
  have place : (0 : ℚ) < 10 ^ (e - 1) := by positivity
  have digit : (a : ℚ) + 1 ≤ b := by exact_mod_cast less
  have step := mul_le_mul_of_nonneg_right digit place.le
  rw [value_cons,value_cons]
  linarith

theorem compareLex_value {as bs : List Nat} (smallA : ∀ d ∈ as, d < 10) (smallB : ∀ d ∈ bs, d < 10)
    (lastA : as.getLast? ≠ some 0) (lastB : bs.getLast? ≠ some 0) (e : Int) :
    List.compareLex compare as bs = compare (value as e) (value bs e) := by
  induction as generalizing bs e with
  | nil =>
    cases bs with
    | nil => exact (compare_eq_iff_eq.mpr rfl).symm
    | cons b bs =>
      rw [value_nil]
      exact (compare_lt_iff_lt.mpr (value_pos_of_last (by simp) lastB e)).symm
  | cons a as ih =>
    cases bs with
    | nil =>
      rw [value_nil]
      exact (compare_gt_iff_gt.mpr (value_pos_of_last (by simp) lastA e)).symm
    | cons b bs =>
      have tailA : ∀ d ∈ as, d < 10 := fun d member => smallA d (mem_cons_of_mem _ member)
      have tailB : ∀ d ∈ bs, d < 10 := fun d member => smallB d (mem_cons_of_mem _ member)
      rw [List.compareLex_cons_cons]
      rcases lt_trichotomy a b with less | rfl | more
      · rw [compare_lt_iff_lt.mpr less,compare_lt_iff_lt.mpr (value_lt_of_head tailA less e)]
        rfl
      · rw [compare_eq_iff_eq.mpr rfl,value_cons,value_cons]
        change List.compareLex compare as bs = _
        rw [ih tailA tailB (last_tail lastA) (last_tail lastB) (e - 1)]
        rcases lt_trichotomy (value as (e - 1)) (value bs (e - 1)) with less | same | more
        · rw [compare_lt_iff_lt.mpr less,compare_lt_iff_lt.mpr (by linarith)]
        · rw [same]
          exact (compare_eq_iff_eq.mpr rfl).trans (compare_eq_iff_eq.mpr rfl).symm
        · rw [compare_gt_iff_gt.mpr more,compare_gt_iff_gt.mpr (by linarith)]
      · rw [compare_gt_iff_gt.mpr more,compare_gt_iff_gt.mpr (value_lt_of_head tailB more e)]
        rfl

theorem value_scale (ds : List Nat) (e k : Int) : value ds e * 10 ^ k = value ds (e + k) := by
  rw [value,value,mul_assoc,← zpow_add₀ (by norm_num)]
  congr 2
  omega

theorem value_of_le (reach : ds.length ≤ e) :
    value ds e = coefficient (ds ++ replicate (e - ds.length).toNat 0) := by
  have shift : e - ds.length = ((e - ds.length).toNat : Int) := by omega
  rw [coefficient_append,coefficient_zeros,length_replicate,value]
  conv_lhs => rw [shift,zpow_natCast]
  push_cast
  ring

theorem Normal.integer_iff (normal : Normal ds) (present : ds ≠ []) (e : Int) :
    (∃ v : Int, value ds e = v) ↔ ds.length ≤ e := by
  constructor
  · rintro ⟨v,same⟩
    by_contra short
    obtain ⟨front,d,rfl⟩ := (eq_nil_or_concat' ds).resolve_left present
    -- one place is left behind the point, so ten divides the coefficient
    obtain ⟨m,places⟩ : ∃ m : Nat, ((front ++ [d]).length : Int) - e = m + 1 :=
      ⟨(((front ++ [d]).length : Int) - e - 1).toNat,by omega⟩
    have scaled : (coefficient (front ++ [d]) : ℚ) = 10 * (10 ^ m * v) := by
      have shift : e - ((front ++ [d]).length : Int) = -((m + 1 : Nat) : Int) := by omega
      rw [value,shift,zpow_neg,zpow_natCast] at same
      field_simp at same
      rw [same]
      ring
    have divides : (10 : Int) ∣ coefficient (front ++ [d]) := ⟨10 ^ m * v,by exact_mod_cast scaled⟩
    have small := normal.digits d (by simp)
    have nonzero : d ≠ 0 := by simpa using normal.last
    rw [coefficient_append,coefficient_singleton] at divides
    simp only [length_singleton] at divides
    omega
  · intro reach
    exact ⟨_,value_of_le reach⟩

def signed (negative : Bool) (magnitude : ℚ) : ℚ := if negative then -magnitude else magnitude

theorem signed_injective (a b : ℚ) (nonneg : 0 ≤ a) (nonneg' : 0 ≤ b) (zero : negative = true → a ≠ 0)
    (zero' : negative' = true → b ≠ 0) (same : signed negative a = signed negative' b) :
    negative = negative' ∧ a = b := by
  cases negative <;> cases negative' <;> simp only [signed,if_true,false_eq_true,if_false] at same
  · exact ⟨rfl,same⟩
  · have := zero' rfl
    exact absurd (by linarith : b = 0) this
  · have := zero rfl
    exact absurd (by linarith : a = 0) this
  · exact ⟨rfl,neg_injective same⟩

/-- A plain positional decimal `[-]whole[.fraction]`; without fraction digits there is
no point. -/
structure Plain where
  negative : Bool
  whole : List Nat
  fraction : List Nat

def digitChar (d : Nat) : Char := Char.ofNat (48 + d)

namespace Plain

def spell (p : Plain) : List Char :=
  (if p.negative then ['-'] else []) ++ p.whole.map digitChar ++
    if p.fraction.isEmpty then [] else '.' :: p.fraction.map digitChar

def value (p : Plain) : ℚ := signed p.negative (Decimal.value (p.whole ++ p.fraction) p.whole.length)

structure WellFormed (p : Plain) : Prop where
  whole : ∀ d ∈ p.whole, d < 10
  fraction : ∀ d ∈ p.fraction, d < 10
  present : p.whole ≠ []

/-- Nothing is superfluous: no zero leads except a single one before the point, none
ends the fraction, and zero has no sign. -/
structure Canonical (p : Plain) : Prop extends WellFormed p where
  first : p.whole.head? = some 0 → p.whole = [0]
  last : p.fraction.getLast? ≠ some 0
  zero : p.negative = true → coefficient (p.whole ++ p.fraction) ≠ 0

theorem whole_unique (smallA : ∀ d ∈ a, d < 10) (smallB : ∀ d ∈ b, d < 10) (someA : a ≠ []) (someB : b ≠ [])
    (firstA : a.head? = some 0 → a = [0]) (firstB : b.head? = some 0 → b = [0])
    (same : coefficient a = coefficient b) : a = b := by
  by_cases zeroA : a.head? = some 0 <;> by_cases zeroB : b.head? = some 0
  · rw [firstA zeroA,firstB zeroB]
  · have := coefficient_pos zeroB someB
    simp [← same,firstA zeroA] at this
  · have := coefficient_pos zeroA someA
    simp [same,firstB zeroB] at this
  · apply coefficient_injective a b smallA smallB ?_ same
    obtain ⟨x,as,rfl⟩ := exists_cons_of_ne_nil someA
    obtain ⟨y,bs,rfl⟩ := exists_cons_of_ne_nil someB
    have lowA := coefficient_ge zeroA
    have lowB := coefficient_ge zeroB
    have highA := coefficient_lt smallA
    have highB := coefficient_lt smallB
    have up := (Nat.pow_lt_pow_iff_right (by decide)).mp (lowA.trans_lt (same ▸ highB))
    have down := (Nat.pow_lt_pow_iff_right (by decide)).mp (lowB.trans_lt (same ▸ highA))
    simp only [length_cons] at up down ⊢
    omega

private theorem unique_of_le (p : Plain) (q : Plain) (cp : p.Canonical) (cq : q.Canonical)
    (shorter : p.fraction.length ≤ q.fraction.length)
    (same : Decimal.value (p.whole ++ p.fraction) p.whole.length =
      Decimal.value (q.whole ++ q.fraction) q.whole.length) :
    p.whole = q.whole ∧ p.fraction = q.fraction := by
  set k := q.fraction.length - p.fraction.length with padding
  have length : (p.fraction ++ replicate k 0).length = q.fraction.length := by simp; omega
  have smallPadded : ∀ d ∈ p.fraction ++ replicate k 0, d < 10 := by
    intro d member
    rcases mem_append.mp member with inside | zero
    · exact cp.fraction d inside
    · rw [eq_of_mem_replicate zero]; decide
  -- At one scale both values are integers, and their parts are quotient and remainder.
  have coefficients : coefficient (p.whole ++ (p.fraction ++ replicate k 0)) =
      coefficient (q.whole ++ q.fraction) := by
    rw [← value_append_zeros _ k,Decimal.value,Decimal.value,append_assoc,length_append,length,length_append] at same
    have scale : (10 : ℚ) ^ (-(q.fraction.length : Int)) ≠ 0 := by positivity
    have exponentP : (p.whole.length : Int) - ↑(p.whole.length + q.fraction.length) =
      -(q.fraction.length : Int) := by push_cast; ring
    have exponentQ : (q.whole.length : Int) - ↑(q.whole.length + q.fraction.length) =
      -(q.fraction.length : Int) := by push_cast; ring
    rw [exponentP,exponentQ] at same
    exact_mod_cast mul_right_cancel₀ scale same
  have lowP := coefficient_lt smallPadded
  have lowQ := coefficient_lt cq.fraction
  rw [coefficient_append p.whole,coefficient_append q.whole,length] at coefficients
  rw [length] at lowP
  have scale : 0 < 10 ^ q.fraction.length := by positivity
  have wholes : coefficient p.whole = coefficient q.whole := by
    have quotient := congrArg (· / 10 ^ q.fraction.length) coefficients
    simp only [add_comm (_ * _),add_mul_div_right _ _ scale,div_eq_of_lt lowP,
      div_eq_of_lt lowQ,zero_add] at quotient
    exact quotient
  have fractions := coefficient_injective _ _ smallPadded cq.fraction length (by rw [wholes] at coefficients; omega)
  refine ⟨whole_unique cp.whole cq.whole cp.present cq.present cp.first cq.first wholes,?_⟩
  cases zeros : k with
  | zero => simpa [zeros] using fractions
  | succ n =>
    rw [zeros,replicate_succ',← append_assoc] at fractions
    exact absurd (by rw [← fractions]; simp) cq.last

theorem magnitude_ne_zero (p : Plain) (some : coefficient (p.whole ++ p.fraction) ≠ 0) :
    Decimal.value (p.whole ++ p.fraction) p.whole.length ≠ 0 := by
  unfold Decimal.value
  positivity

theorem Canonical.unique (cp : Canonical p) (cq : Canonical q) (same : p.value = q.value) : p = q := by
  obtain ⟨sign,magnitude⟩ := signed_injective _ _ (value_nonneg ..) (value_nonneg ..)
    (fun negative => magnitude_ne_zero p (cp.zero negative))
    (fun negative => magnitude_ne_zero q (cq.zero negative)) same
  have parts : p.whole = q.whole ∧ p.fraction = q.fraction := by
    rcases le_total p.fraction.length q.fraction.length with shorter | shorter
    · exact unique_of_le p q cp cq shorter magnitude
    · obtain ⟨whole,fraction⟩ := unique_of_le q p cq cp shorter magnitude.symm
      exact ⟨whole.symm,fraction.symm⟩
  cases p; cases q
  simp_all

def reduce (p : Plain) : Plain where
  negative := p.negative && coefficient (p.whole ++ p.fraction) != 0
  whole := if p.whole.all (· == 0) then [0] else p.whole.dropWhile (· == 0)
  fraction := p.fraction.rdropWhile (· == 0)

theorem all_zeros (zeros : ds.all (· == 0) = true) : ds = replicate ds.length 0 := by
  apply eq_replicate_of_mem
  intro d member
  simpa using all_eq_true.mp zeros d member

theorem reduce_whole (p : Plain) (present : p.whole ≠ []) :
    (∃ k, p.whole = replicate k 0 ++ p.reduce.whole) ∧ p.reduce.whole ≠ [] ∧
      (p.reduce.whole.head? = some 0 → p.reduce.whole = [0]) := by
  simp only [reduce]
  split
  · rename_i zeros
    refine ⟨⟨p.whole.length - 1,?_⟩,by simp,by simp⟩
    rw [← replicate_succ' (n := p.whole.length - 1)]
    have := length_pos_iff.mpr present
    rw [Nat.sub_add_cancel this]
    exact all_zeros zeros
  · rename_i zeros
    have some : p.whole.dropWhile (· == 0) ≠ [] := by
      intro none
      exact zeros (all_eq_true.mpr (dropWhile_eq_nil_iff.mp none))
    refine ⟨⟨leading p.whole,?_⟩,some,?_⟩
    · rw [← takeWhile_zeros,takeWhile_append_dropWhile]
    · intro first
      have notZero := head?_dropWhile_not (· == 0) p.whole
      rw [first] at notZero
      simp at notZero

theorem reduce_value (p : Plain) (present : p.whole ≠ []) : p.reduce.value = p.value := by
  obtain ⟨⟨k,front⟩,-,-⟩ := reduce_whole p present
  obtain ⟨n,behind⟩ := zeros_behind p.fraction
  have magnitude : Decimal.value (p.reduce.whole ++ p.reduce.fraction) p.reduce.whole.length =
      Decimal.value (p.whole ++ p.fraction) p.whole.length := by
    have fraction : p.fraction = p.reduce.fraction ++ replicate n 0 := behind
    rw [fraction,← append_assoc,value_append_zeros,front,append_assoc,value_zeros_append]
    congr 1
    simp
  rw [value,value,magnitude]
  by_cases zero : coefficient (p.whole ++ p.fraction) = 0
  · simp [Decimal.value,zero,signed]
  · have some : (coefficient (p.whole ++ p.fraction) != 0) = true := bne_iff_ne.mpr zero
    rw [reduce,some,Bool.and_true]

theorem reduce_canonical (p : Plain) (formed : p.WellFormed) : p.reduce.Canonical := by
  obtain ⟨⟨k,front⟩,present,first⟩ := reduce_whole p formed.present
  refine ⟨⟨?_,?_,present⟩,first,?_,?_⟩
  · intro d member
    exact formed.whole d (by rw [front]; exact mem_append_right _ member)
  · intro d member
    exact formed.fraction d (IsPrefix.subset (List.rdropWhile_prefix ..) member)
  · intro zero
    have some : p.fraction.rdropWhile (· == 0) ≠ [] := by
      intro none; simp [reduce,none] at zero
    have notZero := rdropWhile_last_not (p := (· == 0)) p.fraction some
    simp only [reduce,getLast?_eq_some_getLast some,Option.some.injEq] at zero
    simp [zero] at notZero
  · intro negative zero
    have magnitude : p.reduce.value = 0 := by simp [value,Decimal.value,zero,signed]
    rw [reduce_value p formed.present] at magnitude
    have some : coefficient (p.whole ++ p.fraction) ≠ 0 := by
      simp only [reduce,and_eq_true,bne_iff_ne] at negative
      exact negative.2
    have := magnitude_ne_zero p some
    rw [value,signed] at magnitude
    split at magnitude
    · exact this (neg_eq_zero.mp magnitude)
    · exact this magnitude

theorem reduce_length (p : Plain) (present : p.whole ≠ []) : p.reduce.spell.length ≤ p.spell.length := by
  obtain ⟨⟨k,front⟩,-,-⟩ := reduce_whole p present
  have whole : p.reduce.whole.length ≤ p.whole.length := by
    conv_rhs => rw [front]
    simp
  have fraction : p.reduce.fraction.length ≤ p.fraction.length :=
    IsPrefix.length_le (List.rdropWhile_prefix ..)
  have sign : (if p.reduce.negative then ['-'] else []).length ≤ (if p.negative then ['-'] else []).length := by
    have sign : p.reduce.negative = true → p.negative = true := fun both => (and_eq_true_iff.mp both).1
    split
    · rename_i negative
      rw [if_pos (sign negative)]
    · simp
  have point : (if p.reduce.fraction.isEmpty then [] else '.' :: p.reduce.fraction.map digitChar).length ≤
      (if p.fraction.isEmpty then [] else '.' :: p.fraction.map digitChar).length := by
    cases run : p.fraction with
    | nil => simp [reduce,run]
    | cons d ds =>
      rw [run] at fraction
      split
      · simp
      · simpa using fraction
  simp only [spell,length_append,length_map]
  omega

theorem Canonical.shortest (canonical : Canonical p) (formed : WellFormed q) (same : q.value = p.value) :
    p.spell.length ≤ q.spell.length := by
  have reduced : p = q.reduce :=
    canonical.unique (reduce_canonical q formed) (same.symm.trans (reduce_value q formed.present).symm)
  rw [reduced]
  exact reduce_length q formed.present

/-- The plain decimal of `±0.d₁…dₙ × 10^exponent`. -/
def place (negative : Bool) (ds : List Nat) (exponent : Int) : Plain :=
  if ds.length ≤ exponent then ⟨negative,ds ++ replicate (exponent - ds.length).toNat 0,[]⟩
  else if 0 < exponent then ⟨negative,ds.take exponent.toNat,ds.drop exponent.toNat⟩
  else ⟨negative,[0],replicate (-exponent).toNat 0 ++ ds⟩

theorem place_negative (negative : Bool) (ds : List Nat) (e : Int) : (place negative ds e).negative = negative := by
  simp only [place]
  split
  · rfl
  · split <;> rfl

theorem place_value (negative : Bool) (ds : List Nat) (e : Int) :
    (place negative ds e).value = signed negative (Decimal.value ds e) := by
  simp only [value,place_negative]
  congr 1
  simp only [place]
  split
  · rename_i long
    simp only [append_nil,value_append_zeros,length_append,length_replicate]
    congr 1
    omega
  · split
    · rename_i short positive
      simp only [take_append_drop,length_take]
      congr 1
      omega
    · rw [show [0] ++ (replicate (-e).toNat 0 ++ ds) = replicate ((-e).toNat + 1) 0 ++ ds by
        simp [replicate_succ],value_zeros_append]
      congr 1
      simp
      omega

/-- Placing the point in a run that starts with a nonzero digit, and ends with one if
digits follow the point, leaves nothing superfluous. -/
theorem place_canonical {negative : Bool} {e : Int} (small : ∀ d ∈ ds, d < 10) (present : ds ≠ []) (first : ds.head? ≠ some 0)
    (last : e < ds.length → ds.getLast? ≠ some 0) : (place negative ds e).Canonical := by
  have nonzero : coefficient ((place negative ds e).whole ++ (place negative ds e).fraction) ≠ 0 := by
    intro zero
    have value := place_value negative ds e
    have positive := coefficient_pos first present
    have magnitude : Decimal.value ds e ≠ 0 := by unfold Decimal.value; positivity
    simp only [Plain.value,Decimal.value,zero,place_negative] at value
    cases negative <;> simp [signed] at value <;> exact magnitude (by simpa [Decimal.value] using value)
  have zeros : ∀ n, ∀ d ∈ replicate n 0, d < 10 := by
    intro n d member
    rw [eq_of_mem_replicate member]; decide
  obtain ⟨x,rest,rfl⟩ := exists_cons_of_ne_nil present
  refine ⟨⟨?_,?_,?_⟩,?_,?_,fun _ => nonzero⟩ <;> simp only [place] <;> split
  · intro d member
    rcases mem_append.mp member with inside | padding
    · exact small d inside
    · exact zeros _ d padding
  · split
    · intro d member; exact small d (mem_of_mem_take member)
    · simp
  · simp
  · split
    · intro d member; exact small d (mem_of_mem_drop member)
    · intro d member
      rcases mem_append.mp member with padding | inside
      · exact zeros _ d padding
      · exact small d inside
  · simp
  · split
    · rename_i positive
      obtain ⟨n,count⟩ : ∃ n, e.toNat = n + 1 := ⟨e.toNat - 1,by omega⟩
      simp [count]
    · simp
  · intro zero; exact absurd (by simpa using zero) first
  · split
    · rename_i positive
      obtain ⟨n,count⟩ : ∃ n, e.toNat = n + 1 := ⟨e.toNat - 1,by omega⟩
      intro zero
      simp only [count,take_succ_cons,head?_cons] at zero
      exact absurd zero first
    · intro _; rfl
  · simp
  · rename_i short
    have nonzeroLast := last (by omega)
    split
    · rename_i positive
      rw [getLast?_drop]
      split
      · simp
      · exact nonzeroLast
    · rw [getLast?_append_of_ne_nil _ present]
      exact nonzeroLast

end Plain
end Decimal
