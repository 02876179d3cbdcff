import Reldex.DriverContract

/-! Compaction of a fetched batch into the segment a result store retains. A `NUMBER`
column becomes one `i64` per row with a common scale when every value allows it, and
otherwise stays as the driver delivered it; no reader can tell which. -/
namespace Reldex
open List
open Decimal

structure ScaledNumber where
  mantissa : Int64
  scale : Nat
  bounded : scale ≤ 18
  deriving DecidableEq, Repr

namespace ScaledNumber

def maxScale : Nat := 18

def new (mantissa : Int64) (scale : Nat) : Option ScaledNumber :=
  if bounded : scale ≤ 18 then some ⟨mantissa,scale,bounded⟩ else none

/-- `i64::try_from`. -/
def toWord (n : Int) : Option Int64 := if -2^63 ≤ n ∧ n < 2^63 then some (.ofInt n) else none

/-- `value` at `scale`, if that is exact and the mantissa fits. -/
def fromNumber (value : Number) (scale : Nat) : Option ScaledNumber :=
  if maxScale < scale then none
  else if value.isZero then new 0 scale
  else
    let digits := value.run
    let count : Int := digits.length
    let shift := value.exponent - count + (scale : Int)
    if shift < 0 then none
    else if 19 < count + shift then none
    else do
      let magnitude : Nat := digits.foldl (fun m d => m * 10 + d) 0
      let magnitude : Nat := Nat.iterate (· * 10) shift.toNat magnitude
      let mantissa ← toWord (if value.negative then -(magnitude : Int) else magnitude)
      new mantissa scale

def requiredScale (value : Number) : Option Nat :=
  if value.isZero then some 0
  else
    let fractionDigits := max ((value.len : Int) - value.exponent) 0
    if fractionDigits ≤ maxScale then some fractionDigits.toNat else none

def magnitudeDigits (s : ScaledNumber) : List Nat := (Number.reversedDigits s.mantissa.toInt.natAbs).reverse

def toNumber (s : ScaledNumber) : Number :=
  let digits := s.magnitudeDigits
  match Number.fromDigits (decide (s.mantissa.toInt < 0)) digits (digits.length - s.scale) with
  | .ok n => n
  | .error _ => .zero

/-- Leaves out trailing fraction zeros: the digits kept and the scale left. -/
def trimScale (digits : List Nat) : Nat → Nat → Nat × Nat
  | 0, len => (len,0)
  | scale + 1, len =>
    if digits[len - 1]? == some 0 then trimScale digits scale (len - 1) else (len,scale + 1)

def display (s : ScaledNumber) : Text :=
  if s.mantissa = 0 then ['0'] else
  let digits := s.magnitudeDigits
  let (len,scale) := trimScale digits s.scale digits.length
  let digits := digits.take len
  (if s.mantissa.toInt < 0 then ['-'] else []) ++
    if scale = 0 then digits.map digitChar
    else if scale < len then
      let split := len - scale
      (digits.take split).map digitChar ++ '.' :: (digits.drop split).map digitChar
    else ['0','.'] ++ replicate (scale - len) '0' ++ digits.map digitChar

def value (s : ScaledNumber) : ℚ := s.mantissa.toInt * 10 ^ (-(s.scale : Int))

end ScaledNumber

inductive NumberValue where
  | scaled (value : ScaledNumber)
  | decimal (value : CanonicalNumber)

namespace NumberValue

def toNumber : NumberValue → Number
  | .scaled value => value.toNumber
  | .decimal value => value

def display : NumberValue → Text
  | .scaled value => value.display
  | .decimal value => value.val.display

end NumberValue

inductive NumberStorage where
  | scaled (values : List Int64) (scale : Nat)
  | decimal (values : List CanonicalNumber)

inductive Storage where
  | boolean (values : List Bool)
  | number (values : NumberStorage)
  | float (values : List UInt32)
  | double (values : List UInt64)
  | text (values : TextColumn)
  | bytes (values : BytesColumn)
  | timestamp (values : List Timestamp)
  | json (values : TextColumn)
  | unsupported (values : TextColumn)
  | lob (ids : List Nat)

structure SegmentColumn where
  nulls : NullMask
  storage : Storage

inductive LobUnavailable where
  | transactionEnded | sessionEnded | resultClosed
  deriving DecidableEq, Repr

inductive CellValue where
  | null
  | boolean (value : Bool)
  | number (value : NumberValue)
  | float (value : UInt32)
  | double (value : UInt64)
  | text (value : Text)
  | bytes (value : List UInt8)
  | timestamp (value : Timestamp)
  | json (value : Text)
  | unsupported (value : Text)
  | lob (handle : LobHandle)
  | lobUnavailable (reason : LobUnavailable)

def lobCellBytes : Nat := 320

/-- Sizes the compiler chooses: the two structs of a segment. -/
structure Layout where
  resultSegment : Nat
  segmentColumn : Nat

namespace SegmentColumn

def value (c : SegmentColumn) (session : SessionId) (row : Nat) : Option CellValue :=
  if c.nulls.len ≤ row then none
  else if c.nulls.isNull row then some .null
  else match c.storage with
    | .boolean values => values[row]?.map .boolean
    | .number (.scaled values scale) => do
      let mantissa ← values[row]?
      let scaled ← ScaledNumber.new mantissa scale
      return .number (.scaled scaled)
    | .number (.decimal values) => values[row]?.map fun n => .number (.decimal n)
    | .float values => values[row]?.map .float
    | .double values => values[row]?.map .double
    | .text values => (values.get row).map .text
    | .bytes values => (values.get row).map .bytes
    | .timestamp values => values[row]?.map .timestamp
    | .json values => (values.get row).map .json
    | .unsupported values => (values.get row).map .unsupported
    | .lob ids => ids[row]?.map fun id => .lob ⟨session,id⟩

/-- Every vector is held at its exact size. -/
def heapBytes (c : SegmentColumn) : Nat :=
  8 * c.nulls.bits.length + match c.storage with
    | .boolean values => values.length
    | .number (.scaled values _) => 8 * values.length
    | .number (.decimal values) => 44 * values.length
    | .float values => 4 * values.length
    | .double values => 8 * values.length
    | .text values | .json values | .unsupported values => values.heapBytes
    | .bytes values => values.heapBytes
    | .timestamp values => 16 * values.length
    | .lob ids => 8 * ids.length + (ids.filter (· != 0)).length * (lobCellBytes - 8)

end SegmentColumn

structure ResultSegment where
  session : SessionId
  rows : Nat
  columns : List SegmentColumn
  accountedBytes : Nat

def ResultSegment.value (s : ResultSegment) (row column : Nat) : Option CellValue := do
  let c ← s.columns[column]?
  c.value s.session row

/-- The first loop of `compact_numbers`: the largest scale a non-NULL value needs. -/
def commonScale (values : List CanonicalNumber) (nulls : NullMask) : Option Nat :=
  values.zipIdx.foldlM (fun scale cell =>
    if nulls.isNull cell.2 then some scale
    else (ScaledNumber.requiredScale cell.1.val).map (max scale)) 0

/-- The second loop: every mantissa at the common scale, zero for NULL. -/
def scaleAll (values : List CanonicalNumber) (nulls : NullMask) (scale : Nat) : Option (List Int64) :=
  values.zipIdx.mapM fun cell =>
    if nulls.isNull cell.2 then some 0
    else (ScaledNumber.fromNumber cell.1.val scale).map ScaledNumber.mantissa

def compactNumbers (values : List CanonicalNumber) (nulls : NullMask) : NumberStorage :=
  match commonScale values nulls with
  | none => .decimal values
  | some scale =>
    match scaleAll values nulls scale with
    | none => .decimal values
    | some scaled => .scaled scaled scale

section
variable {L σ : Type} (layout : Layout) (park : Nat → L → ExceptT DbError (StateM σ) Nat)

def parkAll (locators : List (Option L)) : ExceptT DbError (StateM σ) (List Nat) :=
  locators.zipIdx.mapM fun cell =>
    match cell.1 with
    | none => pure 0
    | some locator => park cell.2 locator

def compactColumn (c : Column L) : ExceptT DbError (StateM σ) SegmentColumn :=
  match c.data with
  | .boolean values => pure ⟨c.nulls,.boolean values⟩
  | .number values => pure ⟨c.nulls,.number (compactNumbers values c.nulls)⟩
  | .float values => pure ⟨c.nulls,.float values⟩
  | .double values => pure ⟨c.nulls,.double values⟩
  | .text values => pure ⟨c.nulls,.text values⟩
  | .bytes values => pure ⟨c.nulls,.bytes values⟩
  | .timestamp values => pure ⟨c.nulls,.timestamp values⟩
  | .json values => pure ⟨c.nulls,.json values⟩
  | .unsupported values => pure ⟨c.nulls,.unsupported values⟩
  | .lob locators => do
    let ids ← parkAll park locators
    pure ⟨c.nulls,.lob ids⟩

/-- Compacts a batch, parking every large-object locator on the worker. -/
def compactBatch (session : SessionId) (batch : RowBatch L) : ExceptT DbError (StateM σ) ResultSegment := do
  let columns ← batch.columns.mapM (compactColumn park)
  let accounted := layout.resultSegment + 2 * 8 + columns.length * layout.segmentColumn +
    (columns.map SegmentColumn.heapBytes).sum
  pure ⟨session,batch.rowCount,columns,accounted⟩

end

namespace ResultSegment

/-- A batch without large objects never asks to park one. -/
def refusePark : Nat → L → ExceptT DbError (StateM Unit) Nat := fun _ _ =>
  throw (.internal "reldex-db-core: a batch without LOB columns asked to park a locator")

/-- Compaction outside any session. A batch with large objects is handed back. -/
def compact (layout : Layout) (batch : RowBatch L) : Except (RowBatch L) ResultSegment :=
  if batch.columns.all fun c => c.data.kind != .lob then
    match (compactBatch layout refusePark SessionId.unowned batch ()).1 with
    | .ok segment => .ok segment
    | .error _ => .error ⟨[],0,by simp⟩
  else .error batch

end ResultSegment

namespace ScaledNumber
variable {n : Number} {s : ScaledNumber} {scale : Nat}

theorem toWord_value {n : Int} (fits : toWord n = some word) : word.toInt = n := by
  unfold toWord at fits
  split at fits
  · rename_i range
    rw [← Option.some.inj fits,Int64.toInt_ofInt_of_le range.1 range.2]
  · cases fits

theorem fromNumber_value (canonical : n.Canonical) (scaled : fromNumber n scale = some s) :
    s.value = n.value ∧ s.scale = scale := by
  by_cases large : maxScale < scale
  · simp [fromNumber,large] at scaled
  by_cases none : n.isZero = true
  · simp only [fromNumber,if_neg large,if_pos none,new,Option.dite_none_right_eq_some,Option.some.injEq] at scaled
    obtain ⟨bounded,rfl⟩ := scaled
    have run : n.run = [] := length_eq_zero_iff.mp (canonical.length.trans (by simpa [Number.isZero] using none))
    simp [value,canonical.run_nil run]
  by_cases below : n.exponent - n.run.length + (scale : Int) < 0
  · simp [fromNumber,large,none,below] at scaled
  by_cases wide : 19 < n.run.length + (n.exponent - n.run.length + (scale : Int))
  · simp [fromNumber,large,none,below,wide] at scaled
  simp only [fromNumber,if_neg large,if_neg none,if_neg below,if_neg wide,Option.bind_eq_bind,
    Option.bind_eq_some_iff,new,Option.dite_none_right_eq_some,Option.some.injEq] at scaled
  obtain ⟨mantissa,fits,bounded,rfl⟩ := scaled
  refine ⟨?_,rfl⟩
  have word := toWord_value fits
  rw [foldl_coefficient,Nat.zero_mul,Nat.zero_add,mul_right_iterate] at word
  have power : ((10 : ℚ) ^ (n.exponent - n.run.length + scale).toNat) = 10 ^ (n.exponent - n.run.length + scale) := by
    rw [← zpow_natCast,Int.toNat_of_nonneg (by omega)]
  have magnitude : ((coefficient n.run * 10 ^ (n.exponent - n.run.length + scale).toNat : Nat) : ℚ) *
      10 ^ (-(scale : Int)) = Decimal.value n.run n.exponent := by
    push_cast
    rw [power,mul_assoc,← zpow_add₀ (by norm_num),Decimal.value]
    congr 2
    ring
  rw [value,Number.value,word,← magnitude]
  cases n.negative <;> simp [signed]

theorem digits_value (s : ScaledNumber) :
    signed (decide (s.mantissa.toInt < 0)) (Decimal.value s.magnitudeDigits (s.magnitudeDigits.length - s.scale)) =
      s.value := by
  have magnitude : Decimal.value s.magnitudeDigits (s.magnitudeDigits.length - s.scale) =
      s.mantissa.toInt.natAbs * 10 ^ (-(s.scale : Int)) := by
    rw [magnitudeDigits,Number.reversedDigits_eq,Decimal.value,Number.coefficient_digits]
    congr 2
    ring
  rw [magnitude,value,← Number.signed_natAbs s.mantissa.toInt]
  cases decide (s.mantissa.toInt < 0) <;> simp [signed]

theorem natAbs_lt (s : ScaledNumber) : s.mantissa.toInt.natAbs < 2^128 := by
  have low := Int64.le_toInt s.mantissa
  have high := Int64.toInt_lt s.mantissa
  omega

theorem digits_length (s : ScaledNumber) : s.magnitudeDigits.length ≤ 39 := by
  rw [magnitudeDigits,Number.reversedDigits_eq,length_reverse]
  exact Number.digits_length s.natAbs_lt

theorem toNumber_eq (canonical : n.Canonical) (same : s.value = n.value) : s.toNumber = n := by
  have length := s.digits_length
  have bounded := s.bounded
  have small : ∀ d ∈ s.magnitudeDigits, d < 10 := by
    rw [magnitudeDigits,Number.reversedDigits_eq]
    exact Number.digits_small _
  have exact := Number.fromDigits_exact (decide (s.mantissa.toInt < 0)) s.magnitudeDigits
    (e := s.magnitudeDigits.length - s.scale) (by omega) (by omega)
  rw [s.digits_value,same] at exact
  obtain ⟨m,built⟩ := exact.2.mpr ⟨small,n,canonical,rfl⟩
  obtain ⟨canonical',value⟩ := exact.1 m built
  have equal : s.toNumber = m := by simp only [toNumber,built]
  rw [equal,canonical'.eq_of_value canonical value]

theorem trimScale_spec (digits : List Nat) (scale len : Nat) (fits : len ≤ digits.length)
    (first : digits.head? ≠ some 0) (present : 0 < len) :
    ∃ k, (trimScale digits scale len).1 + k = len ∧ (trimScale digits scale len).2 + k = scale ∧
      0 < (trimScale digits scale len).1 ∧
      digits.take len = digits.take (trimScale digits scale len).1 ++ replicate k 0 ∧
      (0 < (trimScale digits scale len).2 → (digits.take (trimScale digits scale len).1).getLast? ≠ some 0) := by
  induction scale generalizing len with
  | zero => exact ⟨0,rfl,rfl,present,by simp [trimScale],by simp [trimScale]⟩
  | succ scale ih =>
    have inside : len - 1 < digits.length := by omega
    have last : digits.take len = digits.take (len - 1) ++ [digits[len - 1]] := by
      rw [← take_succ_eq_append_getElem inside,Nat.sub_add_cancel present]
    rw [trimScale]
    split
    · rename_i zero
      simp only [getElem?_eq_getElem inside,beq_iff_eq,Option.some.injEq] at zero
      -- The first digit is not zero, so it is not the one left out.
      have more : 0 < len - 1 := by
        by_contra one
        have : len - 1 = 0 := by omega
        rw [head?_eq_getElem?] at first
        simp only [this] at zero
        rw [getElem?_eq_getElem (by omega),zero] at first
        exact first rfl
      obtain ⟨k,count,left,some,split,ends⟩ := ih (len - 1) (by omega) more
      refine ⟨k + 1,by omega,by omega,some,?_,ends⟩
      rw [last,zero,split,replicate_succ',append_assoc]
    · rename_i nonzero
      refine ⟨0,rfl,rfl,present,by simp,fun _ => ?_⟩
      rw [last,getLast?_concat]
      simpa [getElem?_eq_getElem inside] using nonzero

theorem display_eq (canonical : n.Canonical) (same : s.value = n.value) : s.display = n.display := by
  unfold display
  split
  · rename_i zero
    have none : n.value = 0 := by
      rw [← same,value,zero]
      simp
    rw [canonical.eq_of_value Number.zero_canonical (by rw [none,Number.zero_value])]
    rfl
  · rename_i nonzero
    have positive : 0 < s.mantissa.toInt.natAbs := by
      rw [Int.natAbs_pos]
      intro zero
      exact nonzero (Int64.toInt_inj.mp (by rw [zero]; rfl))
    have run : s.magnitudeDigits = (Nat.digits 10 s.mantissa.toInt.natAbs).reverse := by
      rw [magnitudeDigits,Number.reversedDigits_eq]
    have first : s.magnitudeDigits.head? ≠ some 0 := by rw [run]; exact Number.digits_head positive
    have present : 0 < s.magnitudeDigits.length := by
      rw [run,length_reverse,length_pos_iff]
      exact Nat.digits_ne_nil_iff_ne_zero.mpr (by omega)
    have small : ∀ d ∈ s.magnitudeDigits, d < 10 := by rw [run]; exact Number.digits_small _
    obtain ⟨k,count,left,some,split,ends⟩ :=
      trimScale_spec s.magnitudeDigits s.scale s.magnitudeDigits.length le_rfl first present
    set len := (trimScale s.magnitudeDigits s.scale s.magnitudeDigits.length).1
    set scale := (trimScale s.magnitudeDigits s.scale s.magnitudeDigits.length).2
    set kept := s.magnitudeDigits.take len with keeps
    rw [take_length] at split
    have width : kept.length = len := by rw [keeps,length_take]; omega
    have some : kept ≠ [] := by rw [← length_pos_iff]; omega
    set p := Plain.place (decide (s.mantissa.toInt < 0)) kept ((len : Int) - scale) with placed
    have value : p.value = s.value := by
      rw [placed,Plain.place_value,← s.digits_value,split,value_append_zeros,length_append,width,length_replicate]
      congr 2
      omega
    have tidy : p.Canonical := by
      apply Plain.place_canonical ?_ some ?_ ?_
      · intro d member; exact small d (mem_of_mem_take member)
      · rw [split,head?_append_of_ne_nil _ some] at first
        exact first
      · intro short; exact ends (by omega)
    have spelled : p.spell = n.display := by
      rw [tidy.unique (Number.plain_canonical canonical)
        (value.trans (same.trans (Number.plain_value canonical).symm)),Number.plain_spell canonical]
    rw [← spelled,placed,Number.spell_place _ some,width]
    change (if s.mantissa.toInt < 0 then ['-'] else []) ++
      (if scale = 0 then kept.map digitChar
      else if scale < len then
        (kept.take (len - scale)).map digitChar ++ '.' :: (kept.drop (len - scale)).map digitChar
      else ['0','.'] ++ replicate (scale - len) '0' ++ kept.map digitChar) = _
    have point : ((len : Int) - scale).toNat = len - scale := by omega
    have zeros : (-((len : Int) - scale)).toNat = scale - len := by omega
    rw [point,zeros]
    congr 1
    · simp
    · by_cases whole : scale = 0
      · simp [whole]
      · by_cases inside : scale < len
        · rw [if_neg whole,if_pos inside,if_neg (by omega),if_pos (by omega)]
        · rw [if_neg whole,if_neg inside,if_neg (by omega),if_neg (by omega)]

end ScaledNumber

section
variable {values : List CanonicalNumber} {nulls : NullMask}

theorem requiredScale_le (needed : ScaledNumber.requiredScale n = some scale) : scale ≤ 18 := by
  unfold ScaledNumber.requiredScale at needed
  split at needed
  · rw [← Option.some.inj needed]; decide
  · simp only [Option.ite_none_right_eq_some,Option.some.injEq] at needed
    have bound : max ((n.len : Int) - n.exponent) 0 ≤ 18 := needed.1
    omega

theorem commonScale_le (common : commonScale values nulls = some scale) : scale ≤ 18 := by
  have fold (cells : List (CanonicalNumber × Nat)) (start : Nat) (low : start ≤ 18)
      (run : cells.foldlM (fun scale cell => if nulls.isNull cell.2 then some scale
        else (ScaledNumber.requiredScale cell.1.val).map (max scale)) start = some scale) : scale ≤ 18 := by
    induction cells generalizing start with
    | nil => rw [← Option.some.inj run]; exact low
    | cons cell cells ih =>
      rw [foldlM_cons,Option.bind_eq_bind,Option.bind_eq_some_iff] at run
      obtain ⟨next,step,rest⟩ := run
      refine ih next ?_ rest
      split at step
      · rw [← Option.some.inj step]; exact low
      · rw [Option.map_eq_some_iff] at step
        obtain ⟨needed,found,rfl⟩ := step
        exact max_le low (requiredScale_le found)
  exact fold _ 0 (by decide) common

theorem mapM_some (f : α → Option β) (l : List α) : l.mapM f = some l' → Forall₂ (fun a b => f a = some b) l l' := by
  induction l generalizing l' with
  | nil => intro same; rw [← Option.some.inj same]; exact .nil
  | cons a l ih =>
    intro same
    rw [mapM_cons] at same
    simp only [Option.bind_eq_bind,Option.bind_eq_some_iff,Option.pure_def,Option.some.injEq] at same
    obtain ⟨b,first,rest,others,rfl⟩ := same
    exact .cons first (ih others)

theorem rel_getElem? (related : Forall₂ R xs ys) (i : Nat) : Option.Rel R xs[i]? ys[i]? := by
  induction related generalizing i with
  | nil => exact .none
  | cons first _ ih =>
    cases i with
    | zero => exact .some first
    | succ i => exact ih i

theorem scaleAll_get (scaled : scaleAll values nulls scale = some mantissas) (row : Nat) :
    Option.Rel (fun n m => nulls.isNull row = false →
      ∃ s, ScaledNumber.fromNumber n.val scale = some s ∧ s.mantissa = m) values[row]? mantissas[row]? := by
  have related := rel_getElem? (mapM_some _ _ scaled) row
  rw [getElem?_zipIdx] at related
  cases found : values[row]? with
  | none =>
    rw [found] at related
    cases held : mantissas[row]? with
    | none => exact .none
    | some m => rw [held] at related; cases related
  | some n =>
    rw [found] at related
    cases held : mantissas[row]? with
    | none => rw [held] at related; cases related
    | some m =>
      rw [held] at related
      cases related with
      | some cell =>
        refine .some fun present => ?_
        simp only [Nat.zero_add,present,Bool.false_eq_true,if_false,Option.map_eq_some_iff] at cell
        exact cell

end

def CellValue.Reads : CellValue → ValueRef L → Prop
  | .null,.null => True
  | .boolean a,.boolean b => a = b
  | .number a,.number b => a.toNumber = b.val ∧ a.display = b.val.display
  | .float a,.float b => a = b
  | .double a,.double b => a = b
  | .text a,.text b => a = b
  | .bytes a,.bytes b => a = b
  | .timestamp a,.timestamp b => a = b
  | .json a,.json b => a = b
  | .unsupported a,.unsupported b => a = b
  | _,_ => False

section
variable {L σ : Type} {park : Nat → L → ExceptT DbError (StateM σ) Nat}

theorem rel_map (f : α → CellValue) (g : α → ValueRef L) (reads : ∀ a, (f a).Reads (g a)) (o : Option α) :
    Option.Rel CellValue.Reads (o.map f) (o.map g) := by
  cases o with
  | none => exact .none
  | some a => exact .some (reads a)

variable (values : List CanonicalNumber) (nulls : NullMask)

theorem compactNumbers_cases : compactNumbers values nulls = .decimal values ∨ ∃ scale mantissas, scale ≤ 18 ∧
      scaleAll values nulls scale = some mantissas ∧ compactNumbers values nulls = .scaled mantissas scale := by
  unfold compactNumbers
  cases common : commonScale values nulls with
  | none => exact .inl rfl
  | some scale =>
    cases all : scaleAll values nulls scale with
    | none => exact .inl (by simp only [all])
    | some mantissas => exact .inr ⟨scale,mantissas,commonScale_le common,all,by simp only [all]⟩

theorem number_column (aligned : values.length = nulls.len) (session : SessionId) (row : Nat) :
    Option.Rel CellValue.Reads (SegmentColumn.value ⟨nulls,.number (compactNumbers values nulls)⟩ session row)
      (Column.value (L := L) ⟨.number values,nulls,aligned⟩ row) := by
  unfold SegmentColumn.value Column.value
  simp only [ColumnData.count,aligned]
  split
  · exact .none
  · split
    · exact .some trivial
    · rename_i inside present
      rcases compactNumbers_cases values nulls with plain | ⟨scale,mantissas,bounded,all,scaled⟩
      · rw [plain]
        refine rel_map _ _ ?_ _
        intro n
        exact ⟨rfl,rfl⟩
      · rw [scaled]
        have cell := scaleAll_get all row
        simp only
        generalize values[row]? = found at cell ⊢
        generalize mantissas[row]? = held at cell ⊢
        cases cell with
        | none => exact .none
        | some made =>
          rename_i n m
          obtain ⟨s,exact,rfl⟩ := made (by simpa using present)
          obtain ⟨value,rfl⟩ := ScaledNumber.fromNumber_value n.property exact
          have again : ScaledNumber.new s.mantissa s.scale = some s := dif_pos s.bounded
          simp only [Option.bind_eq_bind,Option.bind_some,again]
          exact .some ⟨ScaledNumber.toNumber_eq n.property value,ScaledNumber.display_eq n.property value⟩

theorem compactColumn_lossless (c : Column L) (plain : c.data.kind ≠ .lob) : ∃ sc, compactColumn park c = pure sc ∧
      ∀ session row, Option.Rel CellValue.Reads (sc.value session row) (c.value row) := by
  obtain ⟨data,nulls,aligned⟩ := c
  cases data with
  | number values => exact ⟨_,rfl,number_column values nulls aligned⟩
  | lob locators => exact absurd rfl plain
  | _ =>
    refine ⟨_,rfl,fun session row => ?_⟩
    unfold SegmentColumn.value Column.value
    simp only [aligned]
    split
    · exact .none
    · split
      · exact .some trivial
      · refine rel_map _ _ ?_ _
        intro value
        exact rfl

theorem mapM_pure {m : Type → Type} [Monad m] [LawfulMonad m] (f : α → m β) (l : List α)
    (made : ∀ a ∈ l, ∃ b, f a = pure b ∧ P a b) : ∃ l', l.mapM f = pure l' ∧ Forall₂ P l l' := by
  induction l with
  | nil => exact ⟨[],by simp,.nil⟩
  | cons a l ih =>
    obtain ⟨b,first,holds⟩ := made a (by simp)
    obtain ⟨l',rest,others⟩ := ih (fun x member => made x (by simp [member]))
    exact ⟨b :: l',by simp [first,rest],.cons holds others⟩

end

theorem RowBatch.value_outside (batch : RowBatch L)
    (outside : batch.rowCount ≤ row ∨ batch.columns.length ≤ column) : batch.value row column = none := by
  unfold RowBatch.value
  rcases outside with below | right
  · cases found : batch.columns[column]? with
    | none => rfl
    | some c =>
      have count := batch.even c (mem_of_getElem? found)
      simp [Column.value,count,below]
  · rw [getElem?_eq_none right]
    rfl

/-- A batch without large objects is compacted, and every cell of the segment says what
the cell of the batch says; out of range both say nothing. -/
theorem compact_lossless (layout : Layout) (batch : RowBatch L) (plain : ∀ c ∈ batch.columns, c.data.kind ≠ .lob) :
    ∃ segment, ResultSegment.compact layout batch = .ok segment ∧
      (∀ row column, Option.Rel CellValue.Reads (segment.value row column) (batch.value row column)) ∧
      ∀ row column, batch.rowCount ≤ row ∨ batch.columns.length ≤ column →
        segment.value row column = none ∧ batch.value row column = none := by
  have retainable : (batch.columns.all fun c => c.data.kind != .lob) = true := by
    rw [all_eq_true]
    intro c member
    simpa using plain c member
  obtain ⟨columns,compacted,cells⟩ := mapM_pure (compactColumn ResultSegment.refusePark) batch.columns
    (fun c member => compactColumn_lossless c (plain c member))
  obtain ⟨bytes,built⟩ : ∃ bytes, ResultSegment.compact layout batch =
      .ok ⟨SessionId.unowned,batch.rowCount,columns,bytes⟩ := by
    unfold ResultSegment.compact
    rw [if_pos retainable,compactBatch,compacted]
    exact ⟨_,rfl⟩
  have same : ∀ row column, Option.Rel CellValue.Reads
      (ResultSegment.value ⟨SessionId.unowned,batch.rowCount,columns,bytes⟩ row column) (batch.value row column) := by
    intro row column
    have related := rel_getElem? cells column
    simp only [ResultSegment.value,RowBatch.value]
    generalize batch.columns[column]? = found at related ⊢
    generalize columns[column]? = held at related ⊢
    cases related with
    | none => exact .none
    | some same => exact same SessionId.unowned row
  refine ⟨_,built,same,fun row column outside => ?_⟩
  have none := batch.value_outside outside
  have other := same row column
  rw [none] at other
  generalize ResultSegment.value _ row column = held at other ⊢
  cases other with
  | none => exact ⟨rfl,none⟩

def numberBatch : RowBatch Unit where
  columns := [⟨.number [⟨⟨Number.pad [1,5],narrowU8 2,1,false⟩,(Number.pad_canonical
    (⟨by decide,by decide,by decide⟩ : Decimal.Normal [1,5]) (by decide) (by decide) (by decide) false).1⟩,
    ⟨Number.zero,Number.zero_canonical⟩],⟨[2],2,rfl⟩,rfl⟩]
  rowCount := 2
  even := by simp [ColumnData.count]

theorem numberBatch_compacted : ∃ segment, ResultSegment.compact ⟨40,88⟩ numberBatch = .ok segment ∧
    Option.Rel CellValue.Reads (segment.value 0 0) (numberBatch.value 0 0) ∧ segment.value 2 0 = none := by
  obtain ⟨segment,built,same,outside⟩ := compact_lossless ⟨40,88⟩ numberBatch (by simp [numberBatch,ColumnData.kind])
  exact ⟨segment,built,same 0 0,(outside 2 0 (.inl (by decide))).1⟩

end Reldex
