import Reldex.NumberDisplay

/-! The guard before a number is bound. The driver below parses the number's text and encodes its
digits in pairs; it reads past its buffer for some shapes and misplaces the pairs for others.
`fromStrShape` and `toBufProbe` are those two walks, `upstreamShape` and `encoderDefect` the closed
forms by which a number is refused first. -/
namespace Reldex.NumberBinds
open Option
open List
open Decimal

def maxBoundNumberDigits : Nat := 40

inductive EncoderDefect where
  | scaledByTen | readsPastItsDigitBuffer
  deriving DecidableEq, Repr

def encoderDefect (digits : Nat) (decimalPointIndex : Int) : Option EncoderDefect :=
  if digits = 0 then none else
  let odd := decimalPointIndex % 2 == 1
  let prependsZero := odd && decide (0 < decimalPointIndex)
  if maxBoundNumberDigits < digits ∨ (prependsZero = true ∧ maxBoundNumberDigits ≤ digits) then
    some .readsPastItsDigitBuffer
  else if odd = true ∧ prependsZero = false then some .scaledByTen
  else none

def upstreamShape (value : Number) : Nat × Int := (max value.len value.exponent.toNat,value.exponent)

structure Walk where
  numDigits : Nat
  numZeros : Nat
  point : Bool
  index : Int
  first : Bool
  deriving DecidableEq, Repr

def toDigit (c : Char) : Option Nat := if c.isDigit then some (Number.digitValue c) else none

namespace Walk

def start : Walk := ⟨0,0,false,0,true⟩

def pass (w : Walk) : Walk :=
  if 0 < w.numDigits then
    { w with point := true, numDigits := w.numDigits + w.numZeros, index := w.numDigits + w.numZeros, numZeros := 0 }
  else { w with point := true, numZeros := 0 }

/-- A digit that is not zero: the zeros before it count, unless it is the first. -/
def take (w : Walk) : Option Walk :=
  if 0 < w.numDigits then
    if maxBoundNumberDigits < w.numDigits + w.numZeros + 1 then none
    else some { w with numDigits := w.numDigits + w.numZeros + 1, numZeros := 0 }
  else some { w with
    index := if w.point then -(w.numZeros : Int) else w.index, numDigits := w.numDigits + 1, numZeros := 0 }

def step (w : Walk) (c : Char) : Option Walk :=
  if w.first && (c == '-' || c == '+') then some { w with first := false }
  else
    let w := { w with first := false }
    if c == '.' && !w.point then some w.pass
    else do
      let digit ← toDigit c
      if digit = 0 then some { w with numZeros := w.numZeros + 1 } else w.take

def finish (w : Walk) : Option (Nat × Int) :=
  if w.numDigits = 0 ∧ w.numZeros = 0 then none
  else if w.numDigits = 0 then some (w.numDigits,0)
  else if w.point then some (w.numDigits,w.index)
  else some (w.numDigits + w.numZeros,w.numDigits + w.numZeros)

end Walk

def fromStrShape (text : Text) : Option (Nat × Int) := do
  let walk ← text.foldlM Walk.step Walk.start
  walk.finish

def readPair (prependZero : Bool) (s : Nat × Nat) (pair : Nat) : Nat × Nat :=
  let highest := max s.2 s.1
  if pair = 0 ∧ prependZero = true then (s.1 + 1,highest) else (s.1 + 2,max highest (s.1 + 1))

/-- The highest position that the encoder reads, and whether it prepends a zero. -/
def toBufProbe (numDigits : Nat) (decimalPointIndex : Int) : Option Nat × Bool :=
  if numDigits = 0 then (none,false) else
  let prependZero := decimalPointIndex.tmod 2 == 1
  let digits := if prependZero then numDigits + 1 else numDigits
  let digits := if digits % 2 = 1 then digits + 1 else digits
  (some ((List.range (digits / 2)).foldl (readPair prependZero) (0,0)).2,prependZero)

section

theorem readPairs (prependZero : Bool) (pairs : Nat) : (range (pairs + 1)).foldl (readPair prependZero) (0,0) =
      if prependZero then (2 * pairs + 1,2 * pairs) else (2 * pairs + 2,2 * pairs + 1) := by
  induction pairs with
  | zero => cases prependZero <;> rfl
  | succ pairs ih =>
    rw [range_succ,foldl_append,ih]
    cases prependZero <;> simp [readPair] <;> omega

theorem tmod_two (index : Int) : index.tmod 2 = 1 ↔ index % 2 = 1 ∧ 0 < index := by
  have sign : index.tmod 2 = if 0 ≤ index ∨ 2 ∣ index then index % 2 else index % 2 - 2 := by
    rw [Int.tmod_eq_emod]
    split <;> simp
  rw [sign]
  split <;> omega

theorem toBufProbe_eq {digits : Nat} (present : digits ≠ 0) (index : Int) : toBufProbe digits index =
      if index % 2 = 1 ∧ 0 < index then (some (2 * (digits / 2)),true)
      else (some (2 * ((digits + 1) / 2) - 1),false) := by
  simp only [toBufProbe,if_neg present,← tmod_two]
  by_cases odd : index.tmod 2 = 1
  · obtain ⟨pairs,count⟩ : ∃ pairs, digits / 2 = pairs := ⟨_,rfl⟩
    have padded : (if (digits + 1) % 2 = 1 then digits + 1 + 1 else digits + 1) / 2 = pairs + 1 := by
      split <;> omega
    simp only [odd,beq_self_eq_true,if_true,padded,readPairs,count]
  · obtain ⟨pairs,count⟩ : ∃ pairs, (digits + 1) / 2 = pairs + 1 := ⟨(digits + 1) / 2 - 1,by omega⟩
    have padded : (if digits % 2 = 1 then digits + 1 else digits) / 2 = pairs + 1 := by
      split <;> omega
    simp only [beq_false_of_ne odd,Bool.false_eq_true,if_false,if_neg odd,padded,readPairs,count]
    rfl

def outOfBounds (digits : Nat) (index : Int) : Prop :=
  ∃ position, (toBufProbe digits index).1 = some position ∧ maxBoundNumberDigits ≤ position

/-- The encoder writes pairs, and not the zero that an odd index needs before them. -/
def misEncodes (digits : Nat) (index : Int) : Prop :=
  0 < digits ∧ index % 2 = 1 ∧ (toBufProbe digits index).2 = false

variable (digits : Nat) (index : Int)

theorem outOfBounds_iff : outOfBounds digits index ↔
    maxBoundNumberDigits < digits ∨ (index % 2 = 1 ∧ 0 < index) ∧ maxBoundNumberDigits ≤ digits := by
  unfold outOfBounds maxBoundNumberDigits
  by_cases zero : digits = 0
  · simp [toBufProbe,zero]
  · rw [toBufProbe_eq zero]
    split
    · rename_i prepends
      simp only [some.injEq,exists_eq_left']
      omega
    · rename_i aligned
      simp only [some.injEq,exists_eq_left']
      omega

theorem misEncodes_iff : misEncodes digits index ↔ 0 < digits ∧ index % 2 = 1 ∧ index ≤ 0 := by
  unfold misEncodes
  by_cases zero : digits = 0
  · simp [zero]
  · rw [toBufProbe_eq zero]
    split
    · rename_i prepends
      simp [prepends]
    · rename_i aligned
      simp only [and_true]
      omega

theorem encoderDefect_eq [Decidable (outOfBounds digits index)]
    [Decidable (misEncodes digits index)] : encoderDefect digits index =
      if outOfBounds digits index then some .readsPastItsDigitBuffer
      else if misEncodes digits index then some .scaledByTen else none := by
  simp only [outOfBounds_iff,misEncodes_iff,encoderDefect]
  by_cases zero : digits = 0
  · simp [zero,maxBoundNumberDigits]
  · by_cases odd : index % 2 = 1 <;> by_cases positive : 0 < index
    all_goals simp [zero,odd,positive,Nat.pos_of_ne_zero zero]
    · simp [Int.not_le.mpr positive]
    · simp [Int.not_lt.mp positive]

end

section
variable {w : Walk} {ds : List Nat} {d : Nat}

theorem toDigit_digitChar (small : d < 10) : toDigit (digitChar d) = some d := by
  rw [toDigit,if_pos (Number.digitChar_spec small).1,(Number.digitChar_spec small).2]

theorem step_digit (small : d < 10) : w.step (digitChar d) =
    if d = 0 then some { w with numZeros := w.numZeros + 1, first := false } else { w with first := false }.take := by
  have plain : (digitChar d == '-' || digitChar d == '+') = false ∧ (digitChar d == '.') = false := by
    revert small
    revert d
    decide
  simp [Walk.step,plain.1,plain.2,toDigit_digitChar small]

theorem step_sign (negative : Bool) :
    (if negative then ['-'] else []).foldlM Walk.step Walk.start = some ⟨0,0,false,0,!negative⟩ := by
  cases negative <;> rfl

theorem walk_zeros (zeros : Nat) (begun : w.first = false) :
    (replicate zeros '0').foldlM Walk.step w = some { w with numZeros := w.numZeros + zeros } := by
  induction zeros generalizing w with
  | zero => rfl
  | succ zeros ih =>
    have zero : w.step '0' = some { w with numZeros := w.numZeros + 1, first := false } :=
      step_digit (d := 0) (by omega)
    rw [replicate_succ,foldlM_cons,zero]
    simp only [bind_eq_bind,bind_some]
    rw [ih rfl]
    simp [begun]
    omega

theorem walk_digits (small : ∀ d ∈ ds, d < 10) (begun : w.first = false) (started : 0 < w.numDigits)
    (room : w.numDigits + w.numZeros + ds.length ≤ maxBoundNumberDigits) :
    ∃ digits zeros, (ds.map digitChar).foldlM Walk.step w = some { w with numDigits := digits, numZeros := zeros } ∧
      digits + zeros = w.numDigits + w.numZeros + ds.length ∧ 0 < digits ∧
      (ds ≠ [] → ds.getLast? ≠ some 0 → zeros = 0) := by
  induction ds using reverseRecOn with
  | nil => exact ⟨w.numDigits,w.numZeros,rfl,rfl,started,fun absent => absurd rfl absent⟩
  | append_singleton ds d ih =>
    rw [length_append,length_singleton] at room
    obtain ⟨digits,zeros,walked,total,counted,-⟩ :=
      ih (fun d member => small d (mem_append_left _ member)) (by omega)
    rw [map_append,foldlM_append,walked]
    simp only [map_cons,map_nil,foldlM_cons,foldlM_nil,bind_eq_bind,bind_some]
    rw [step_digit (small d (by simp))]
    by_cases zero : d = 0
    · refine ⟨digits,zeros + 1,by simp [zero,begun],by simp; omega,counted,?_⟩
      intro _ last
      exact absurd (by simp [zero]) last
    · refine ⟨digits + zeros + 1,0,?_,by simp; omega,by omega,fun _ _ => rfl⟩
      rw [if_neg zero,Walk.take,if_pos counted,if_neg (by simp only; omega)]
      simp [begun]

theorem walk_run (small : ∀ d ∈ ds, d < 10) (present : ds ≠ []) (first : ds.head? ≠ some 0)
    (room : ds.length ≤ maxBoundNumberDigits) (fresh : w.numDigits = 0) :
    ∃ digits zeros, (ds.map digitChar).foldlM Walk.step w =
        some ⟨digits,zeros,w.point,if w.point then -(w.numZeros : Int) else w.index,false⟩ ∧
      digits + zeros = ds.length ∧ 0 < digits ∧ (ds.getLast? ≠ some 0 → zeros = 0) := by
  cases ds with
  | nil => exact absurd rfl present
  | cons d ds =>
    have nonzero : d ≠ 0 := fun zero => first (by simp [zero])
    rw [map_cons,foldlM_cons,step_digit (small d (by simp)),if_neg nonzero,Walk.take,if_neg (by simp [fresh])]
    simp only [bind_eq_bind,bind_some,fresh]
    obtain ⟨digits,zeros,walked,total,counted,last⟩ :=
      walk_digits (w := ⟨1,0,w.point,if w.point then -(w.numZeros : Int) else w.index,false⟩)
        (fun d member => small d (mem_cons_of_mem _ member)) rfl (by simp) (by simpa [Nat.add_comm] using room)
    refine ⟨digits,zeros,walked,by simp at total ⊢; omega,counted,?_⟩
    intro nonzeroLast
    cases ds with
    | nil => simp at total; omega
    | cons next ds => exact last (by simp) (by simpa using nonzeroLast)

theorem walk_append (front back : Text) (w : Walk) :
    (front ++ back).foldlM Walk.step w = (front.foldlM Walk.step w).bind (back.foldlM Walk.step) :=
  foldlM_append

theorem finish_whole {digits zeros : Nat} {index : Int} (counted : 0 < digits) :
    Walk.finish ⟨digits,zeros,false,index,false⟩ = some (digits + zeros,((digits + zeros : Nat) : Int)) := by
  rw [Walk.finish,if_neg (by simp only; omega),if_neg (by simp only; omega)]
  rfl

theorem finish_point {digits zeros : Nat} {index : Int} (counted : 0 < digits) :
    Walk.finish ⟨digits,zeros,true,index,false⟩ = some (digits,index) := by
  rw [Walk.finish,if_neg (by simp only; omega),if_neg (by simp only; omega)]
  rfl

section

-- The three shapes of a text: digits and zeros, a point among the digits, zeros behind the point.
variable (normal : Normal ds) (present : ds ≠ []) (room : ds.length ≤ maxBoundNumberDigits) {e : Int} (first : Bool)
include normal present room

theorem walk_whole (whole : ds.length ≤ e) :
    ((ds.map digitChar ++ replicate (e - ds.length).toNat '0').foldlM Walk.step ⟨0,0,false,0,first⟩).bind
      Walk.finish = some (max ds.length e.toNat,e) := by
  obtain ⟨digits,zeros,walked,total,counted,last⟩ :=
    walk_run (w := ⟨0,0,false,0,first⟩) normal.digits present normal.first room rfl
  have none := last normal.last
  rw [walk_append,walked,bind_some,walk_zeros _ rfl,bind_some]
  simp only
  rw [finish_whole counted,some.injEq,Prod.mk.injEq]
  omega

omit present in
theorem walk_inside (short : e < ds.length) (inside : 0 < e) :
    (((ds.take e.toNat).map digitChar ++ '.' :: (ds.drop e.toNat).map digitChar).foldlM Walk.step
      ⟨0,0,false,0,first⟩).bind Walk.finish = some (max ds.length e.toNat,e) := by
  have front : (ds.take e.toNat).length = e.toNat := by rw [length_take]; omega
  have back : (ds.drop e.toNat).length = ds.length - e.toNat := length_drop
  have head : (ds.take e.toNat).head? = ds.head? := by rw [head?_take,if_neg (by omega)]
  have last : (ds.drop e.toNat).getLast? = ds.getLast? := by rw [getLast?_drop,if_neg (by omega)]
  obtain ⟨digits,zeros,walked,total,counted,-⟩ :=
    walk_run (w := ⟨0,0,false,0,first⟩) (fun d member => normal.digits d (mem_of_mem_take member))
      (ne_nil_of_length_pos (by omega)) (head ▸ normal.first) (by omega) rfl
  have point : Walk.step ⟨digits,zeros,false,0,false⟩ '.' = some ⟨digits + zeros,0,true,digits + zeros,false⟩ := by
    simp [Walk.step,Walk.pass,counted]
  obtain ⟨digits',zeros',walked',total',counted',none⟩ :=
    walk_digits (w := ⟨digits + zeros,0,true,digits + zeros,false⟩)
      (fun d (member : d ∈ ds.drop e.toNat) => normal.digits d (mem_of_mem_drop member)) rfl
      (by simp only; omega) (by simp only; omega)
  have settled := none (ne_nil_of_length_pos (by omega)) (last ▸ normal.last)
  rw [walk_append,walked,bind_some,foldlM_cons]
  simp only [Bool.false_eq_true,if_false,point,bind_eq_bind,bind_some]
  rw [walked',bind_some,finish_point counted',some.injEq,Prod.mk.injEq]
  simp only at total' ⊢
  omega

theorem walk_below (small : e ≤ 0) :
    ((['0','.'] ++ replicate (-e).toNat '0' ++ ds.map digitChar).foldlM Walk.step
      ⟨0,0,false,0,first⟩).bind Walk.finish = some (max ds.length e.toNat,e) := by
  have front : ['0','.'].foldlM Walk.step ⟨0,0,false,0,first⟩ = some ⟨0,0,true,0,false⟩ := by
    cases first <;> rfl
  obtain ⟨digits,zeros,walked,total,counted,last⟩ :=
    walk_run (w := ⟨0,(-e).toNat,true,0,false⟩) normal.digits present normal.first room rfl
  have none := last normal.last
  rw [walk_append,walk_append,front,bind_some,walk_zeros _ rfl,bind_some]
  simp only [Nat.zero_add]
  rw [walked,bind_some]
  simp only [if_true]
  rw [finish_point counted,some.injEq,Prod.mk.injEq]
  omega

end

theorem fromStrShape_display {v : Number} (canonical : v.Canonical) :
    fromStrShape v.display = some (upstreamShape v) := by
  by_cases zero : v.len = 0
  · have exponent := (canonical.zero zero).1
    rw [Number.display,if_pos zero,upstreamShape,zero,exponent]
    rfl
  · have present : v.run ≠ [] := by
      intro none
      rw [← canonical.length,none] at zero
      exact zero rfl
    have room : v.run.length ≤ maxBoundNumberDigits := canonical.length ▸ canonical.width
    rw [← Number.plain_spell canonical,Number.plain,if_neg zero,Number.spell_place _ present,fromStrShape,walk_append,
      step_sign]
    simp only [bind_eq_bind,bind_some]
    rw [upstreamShape,← canonical.length]
    split
    · exact walk_whole canonical.normal present room _ (by assumption)
    · split
      · exact walk_inside canonical.normal room _ (by omega) (by assumption)
      · exact walk_below canonical.normal present room _ (by omega)

end

/-- The guard is exact: the closed form of the shape is the parser's, a number is refused as reading
past the buffer or as scaled exactly where the encoder does that, and not refused anywhere else. -/
theorem bind_guard_is_exact (v : Number) (canonical : v.Canonical) (digits : Nat) (index : Int) :
    fromStrShape v.display = some (upstreamShape v) ∧
    (encoderDefect digits index = some .readsPastItsDigitBuffer ↔ outOfBounds digits index) ∧
    (encoderDefect digits index = some .scaledByTen ↔ ¬outOfBounds digits index ∧ misEncodes digits index) ∧
    (encoderDefect digits index = none ↔ ¬outOfBounds digits index ∧ ¬misEncodes digits index) := by
  classical
  refine ⟨fromStrShape_display canonical,?_⟩
  rw [encoderDefect_eq]
  by_cases past : outOfBounds digits index <;> by_cases scaled : misEncodes digits index <;> simp [past,scaled]

def ones : Number := ⟨List.replicate 40 1,40,3,false⟩

theorem ones_canonical : ones.Canonical where
  length := rfl
  padded := rfl
  width := by decide
  normal := ⟨by decide,by decide,by decide⟩
  exponent := by decide
  zero := nofun

theorem full_number_is_refused : fromStrShape ones.display = some (40,3) ∧ outOfBounds 40 3 ∧
    ¬outOfBounds 39 3 ∧ ¬misEncodes 39 3 :=
  have guard := bind_guard_is_exact ones ones_canonical
  ⟨(guard 40 3).1,(guard 40 3).2.1.mp rfl,(guard 39 3).2.2.2.mp rfl⟩

end Reldex.NumberBinds
