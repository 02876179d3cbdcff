import Reldex.Decimal
import Reldex.Text

/-! The lossless decimal of the driver contract. A `Number` keeps its digits in a
buffer of fixed width; `parse`, `fromDigits` and the integer conversions build it. The
32-bit counters of the source wrap here as they do in its release profile. -/
namespace Reldex
open List

def maxSignificantDigits : Nat := 40
def minExponent : Int := -129
def maxExponent : Int := 126

inductive NumberError where
  | empty | invalidSyntax | invalidDigit | tooManyDigits | exponentOutOfRange
  deriving DecidableEq, Repr

/-- `±0.d₁…dₙ × 10^exponent`. Equality compares the whole buffer. -/
structure Number where
  digits : List Nat
  len : Nat
  exponent : Int
  negative : Bool
  deriving DecidableEq, Repr

/-- The value of a wrapping `i32` operation. -/
def wrapI32 (n : Int) : Int := (n + 2^31) % 2^32 - 2^31

/-- `i32::try_from(n).unwrap_or(i32::MAX)`. -/
def saturateI32 (n : Nat) : Int := if n < 2^31 then n else 2^31 - 1

/-- `u8::try_from(n).unwrap_or(0)`. -/
def narrowU8 (n : Nat) : Nat := if n < 256 then n else 0

namespace Number

def zero : Number := ⟨replicate maxSignificantDigits 0,0,0,false⟩
def run (n : Number) : List Nat := n.digits.take n.len
def isZero (n : Number) : Bool := n.len == 0
def value (n : Number) : ℚ := Decimal.signed n.negative (Decimal.value n.run n.exponent)

def checkExponent (exponent : Int) : Except NumberError Int :=
  if minExponent ≤ exponent ∧ exponent ≤ maxExponent then .ok exponent else .error .exponentOutOfRange

def pad (significant : List Nat) : List Nat :=
  significant ++ replicate (maxSignificantDigits - significant.length) 0

def fromDigits (negative : Bool) (digits : List Nat) (exponent : Int) : Except NumberError Number :=
  if digits.any (9 < ·) then .error .invalidDigit else
  let leading := (digits.takeWhile (· == 0)).length
  let significant := digits.drop leading
  let trailing := (significant.reverse.takeWhile (· == 0)).length
  let significant := significant.take (significant.length - trailing)
  if significant.isEmpty then .ok zero
  else if maxSignificantDigits < significant.length then .error .tooManyDigits
  else do
    let exponent ← checkExponent (wrapI32 (exponent - saturateI32 leading))
    return ⟨pad significant,narrowU8 significant.length,exponent,negative⟩

def digitValue (c : Char) : Nat := c.toNat - '0'.toNat

def readSign : Text → Bool × Text
  | '-' :: rest => (true,rest)
  | '+' :: rest => (false,rest)
  | rest => (false,rest)

def readFraction : Text → Text × Text
  | '.' :: rest => (rest.takeWhile Char.isDigit,rest.dropWhile Char.isDigit)
  | rest => ([],rest)

def readExponent : Text → Except NumberError (Int × Text)
  | [] => .ok (0,[])
  | mark :: rest =>
    if mark == 'e' || mark == 'E' then
      let (negative,rest) := readSign rest
      let digits := rest.takeWhile Char.isDigit
      if digits.isEmpty || 6 < digits.length then .error .invalidSyntax
      else
        let part : Nat := (digits.map digitValue).foldl (fun n d => n * 10 + d) 0
        .ok (if negative then -(part : Int) else part,rest.dropWhile Char.isDigit)
    else .ok (0,mark :: rest)

structure Scanned where
  negative : Bool
  whole : Text
  fraction : Text
  exponentPart : Int
  deriving DecidableEq, Repr

/-- The scanning half of `parse`. -/
def scan (bytes : Text) : Except NumberError Scanned :=
  if bytes.isEmpty then .error .empty else
  let (negative,rest) := readSign bytes
  let whole := rest.takeWhile Char.isDigit
  let (fraction,rest) := readFraction (rest.dropWhile Char.isDigit)
  if whole.isEmpty && fraction.isEmpty then .error .invalidSyntax
  else do
    let (exponentPart,rest) ← readExponent rest
    if rest.isEmpty then return ⟨negative,whole,fraction,exponentPart⟩ else .error .invalidSyntax

structure DigitBuffer where
  buf : List Nat
  len : Nat
  leadingZeros : Int
  started : Bool
  deriving DecidableEq, Repr

namespace DigitBuffer

def empty : DigitBuffer := ⟨replicate maxSignificantDigits 0,0,0,false⟩

def push (s : DigitBuffer) (digit : Nat) : Except NumberError DigitBuffer :=
  if !s.started && digit == 0 then .ok { s with leadingZeros := wrapI32 (s.leadingZeros + 1) }
  else if s.len < maxSignificantDigits then
    .ok { s with buf := s.buf.set s.len digit, len := s.len + 1, started := true }
  else if digit != 0 then .error .tooManyDigits
  else .ok { s with started := true }

end DigitBuffer

def trimLen (buf : List Nat) : Nat → Nat
  | 0 => 0
  | len + 1 => if buf[len]? == some 0 then trimLen buf len else len + 1

/-- The storing half of `parse`. -/
def store (s : Scanned) : Except NumberError Number := do
  let read ← ((s.whole ++ s.fraction).map digitValue).foldlM DigitBuffer.push DigitBuffer.empty
  let len := trimLen read.buf read.len
  if len = 0 then return zero
  else
    let intDigits := saturateI32 s.whole.length
    let exponent ← checkExponent (wrapI32 (wrapI32 (intDigits - read.leadingZeros) + s.exponentPart))
    return ⟨read.buf,narrowU8 len,exponent,s.negative⟩

def parse (text : Text) : Except NumberError Number := do
  store (← scan (trim text))

/-- The digits of `rest`, least significant first. -/
def reversedDigits (rest : Nat) : List Nat :=
  if 0 < rest then rest % 10 :: reversedDigits (rest / 10) else []

def fromMagnitude (magnitude : Nat) (negative : Bool) : Except NumberError Number :=
  if magnitude = 0 then .ok zero else
  let reversed := reversedDigits magnitude
  let trailingZeros := (reversed.takeWhile (· == 0)).length
  let significant := reversed.length - trailingZeros
  if maxSignificantDigits < significant then .error .tooManyDigits
  else .ok ⟨pad (reversed.drop trailingZeros).reverse,narrowU8 significant,reversed.length,negative⟩

/-- `From` for the signed and unsigned types up to 64 bits. -/
def fromSigned (value : Int) : Number :=
  match fromMagnitude value.natAbs (decide (value < 0)) with
  | .ok n => n
  | .error _ => zero

def fromUnsigned (value : Nat) : Number :=
  match fromMagnitude value false with
  | .ok n => n
  | .error _ => zero

/-- `TryFrom` for the 128-bit types. -/
def tryFromSigned (value : Int) : Except NumberError Number := fromMagnitude value.natAbs (decide (value < 0))
def tryFromUnsigned (value : Nat) : Except NumberError Number := fromMagnitude value false

/-- The canonical form: digits without outer zeros, zeros in the rest of the buffer,
an exponent in range, and one form of zero. -/
structure Canonical (n : Number) : Prop where
  length : n.run.length = n.len
  padded : n.digits = pad n.run
  width : n.len ≤ maxSignificantDigits
  normal : Decimal.Normal n.run
  exponent : minExponent ≤ n.exponent ∧ n.exponent ≤ maxExponent
  zero : n.len = 0 → n.exponent = 0 ∧ n.negative = false

theorem zero_canonical : zero.Canonical where
  length := rfl
  padded := rfl
  width := by decide
  normal := ⟨by simp [run,zero],by simp [run,zero],by simp [run,zero]⟩
  exponent := by decide
  zero := by decide

@[simp] theorem zero_value : zero.value = 0 := by simp [value,zero,run,Decimal.signed]

theorem pad_canonical (normal : Decimal.Normal ds) (present : ds ≠ []) (width : ds.length ≤ maxSignificantDigits)
    (range : minExponent ≤ e ∧ e ≤ maxExponent) (negative : Bool) :
    Canonical ⟨pad ds,narrowU8 ds.length,e,negative⟩ ∧
      value ⟨pad ds,narrowU8 ds.length,e,negative⟩ = Decimal.signed negative (Decimal.value ds e) := by
  have narrow : narrowU8 ds.length = ds.length := if_pos (by unfold maxSignificantDigits at width; omega)
  have same : run ⟨pad ds,narrowU8 ds.length,e,negative⟩ = ds := by simp [run,pad,narrow]
  refine ⟨⟨?_,?_,?_,?_,range,?_⟩,?_⟩
  · rw [same]; exact narrow.symm
  · rw [same]
  · simpa [narrow] using width
  · rw [same]; exact normal
  · intro none
    simp only [narrow] at none
    exact absurd (length_eq_zero_iff.mp none) present
  · rw [value,same]

theorem Canonical.ext (a : Canonical m) (b : Canonical n) (run : m.run = n.run)
    (exponent : m.exponent = n.exponent) (negative : m.negative = n.negative) : m = n := by
  have digits : m.digits = n.digits := by rw [a.padded,b.padded,run]
  have len : m.len = n.len := by rw [← a.length,← b.length,run]
  cases m; cases n
  simp_all

theorem Canonical.run_nil (canonical : Canonical n) (none : n.run = []) : n = Number.zero := by
  have len : n.len = 0 := by rw [← canonical.length,none]; rfl
  obtain ⟨exponent,sign⟩ := canonical.zero len
  exact canonical.ext zero_canonical (by rw [none]; rfl) exponent sign

theorem Canonical.negative_magnitude (canonical : Canonical n) (negative : n.negative = true) :
    Decimal.value n.run n.exponent ≠ 0 := by
  intro zero
  have none := (canonical.normal.value_eq_zero_iff _).mp zero
  have := (canonical.zero (by rw [← canonical.length,none]; rfl)).2
  simp [negative] at this

theorem Canonical.eq_of_value (a : Canonical m) (b : Canonical n) (same : m.value = n.value) : m = n := by
  obtain ⟨negative,magnitude⟩ := Decimal.signed_injective _ _ (Decimal.value_nonneg ..)
    (Decimal.value_nonneg ..) a.negative_magnitude b.negative_magnitude same
  by_cases none : m.run = []
  · have other : n.run = [] := by
      rw [← b.normal.value_eq_zero_iff n.exponent,← magnitude,none]
      simp
    rw [a.run_nil none,b.run_nil other]
  · have other : n.run ≠ [] := by
      intro empty
      rw [empty,Decimal.value_nil] at magnitude
      exact none ((a.normal.value_eq_zero_iff _).mp magnitude)
    obtain ⟨run,exponent⟩ := a.normal.unique b.normal none other magnitude
    exact a.ext b run exponent negative

end Number
end Reldex
