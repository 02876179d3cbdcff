import Reldex.SqlLexer

/-! The integer that an editor keeps for a text block: what was open at its end. -/
namespace Reldex
open Nat

namespace LexState

def tagMask : Int32 := 7
def tagBlockComment : Int32 := 1
def tagSingleQuoted : Int32 := 2
def tagDoubleQuoted : Int32 := 3
def tagQString : Int32 := 4
def delimiterShift : Int32 := 8

/-- `LexState::to_raw`. -/
def encode : Mode → Int32
  | .normal => 0
  | .blockComment => tagBlockComment
  | .singleQuoted => tagSingleQuoted
  | .doubleQuoted => tagDoubleQuoted
  | .qString closing => tagQString ||| (closing.val.toInt32 <<< delimiterShift)

/-- `char::from_u32`. -/
def charFromU32 (n : UInt32) : Option Char := if valid : n.isValidChar then some ⟨n,valid⟩ else none

/-- `LexState::from_raw`. -/
def decode (raw : Int32) : Mode :=
  if raw < 0 then .normal
  else if raw &&& tagMask = tagBlockComment then .blockComment
  else if raw &&& tagMask = tagSingleQuoted then .singleQuoted
  else if raw &&& tagMask = tagDoubleQuoted then .doubleQuoted
  else if raw &&& tagMask = tagQString then
    match charFromU32 (raw >>> delimiterShift).toUInt32 with
    | some closing => .qString closing
    | none => .normal
  else .normal

def bits (raw : Int32) : Nat := raw.toBitVec.toNat

theorem bits_inj {a b : Int32} (same : bits a = bits b) : a = b :=
  Int32.toBitVec_inj.mp (BitVec.eq_of_toNat_eq same)

theorem neg_iff (raw : Int32) : raw < 0 ↔ 2 ^ 31 ≤ bits raw := by
  rw [Int32.lt_iff_toInt_lt]
  change raw.toBitVec.toInt < 0 ↔ _
  rw [BitVec.toInt_eq_toNat_cond,bits]
  have := raw.toBitVec.isLt
  split <;> omega

theorem bits_tag (raw : Int32) : bits (raw &&& tagMask) = bits raw % 8 := by
  have masked : bits (raw &&& tagMask) = bits raw &&& 7 := by
    simp only [bits,Int32.toBitVec_and,BitVec.toNat_and]
    rfl
  rw [masked]
  exact and_two_pow_sub_one_eq_mod (bits raw) 3

theorem tag_iff (raw tag : Int32) : raw &&& tagMask = tag ↔ bits raw % 8 = bits tag := by
  rw [← bits_tag]
  exact ⟨fun same => by rw [same],bits_inj⟩

theorem bits_delimiter (raw : Int32) (positive : ¬raw < 0) :
    (raw >>> delimiterShift).toUInt32.toNat = bits raw / 256 := by
  have small : bits raw < 2 ^ 31 := by
    rw [neg_iff] at positive
    omega
  have unsigned : raw.toBitVec.msb = false := by
    rw [BitVec.msb_eq_decide]
    simpa [bits] using small
  change ((raw.toBitVec.sshiftRight 8)).toNat = _
  rw [BitVec.sshiftRight_eq_of_msb_false unsigned,BitVec.toNat_ushiftRight,shiftRight_eq_div_pow]
  rfl

theorem char_small (c : Char) : c.val.toNat < 0x110000 := by
  rcases c.valid with low | ⟨_,high⟩
  · exact lt_trans low (by decide)
  · exact high

theorem bits_qString (closing : Char) : bits (encode (.qString closing)) = closing.val.toNat * 256 + 4 := by
  have small := char_small closing
  have shifted : (closing.val.toInt32 <<< delimiterShift).toBitVec.toNat = closing.val.toNat * 256 := by
    change (closing.val.toBitVec <<< 8).toNat = _
    rw [BitVec.toNat_shiftLeft,shiftLeft_eq]
    change closing.val.toNat * 256 % _ = _
    omega
  have joined : bits (encode (.qString closing)) = 4 ||| closing.val.toNat * 256 := by
    simp only [bits,encode,Int32.toBitVec_or,BitVec.toNat_or,shifted]
    rfl
  rw [joined,Nat.or_comm]
  have apart := shiftLeft_add_eq_or_of_lt (show 4 < 2 ^ 8 by decide) closing.val.toNat
  rw [shiftLeft_eq] at apart
  exact apart.symm

theorem encode_nonneg (mode : Mode) : ¬encode mode < 0 := by
  cases mode with
  | normal | blockComment | singleQuoted | doubleQuoted => decide
  | qString closing =>
    have whole := bits_qString closing
    have small := char_small closing
    rw [neg_iff]
    omega

theorem decode_encode (mode : Mode) : decode (encode mode) = mode := by
  cases mode with
  | normal | blockComment | singleQuoted | doubleQuoted => decide
  | qString closing =>
    have whole := bits_qString closing
    have small := char_small closing
    have positive := encode_nonneg (.qString closing)
    have delimiter : (encode (.qString closing) >>> delimiterShift).toUInt32 = closing.val := by
      rw [← UInt32.toNat_inj,bits_delimiter _ positive]
      omega
    have tag : bits (encode (.qString closing)) % 8 = 4 := by omega
    simp only [decode,positive,↓reduceIte,tag_iff,tag,delimiter]
    have valid : closing.val.isValidChar := closing.valid
    simp [charFromU32,valid,bits,tagBlockComment,tagSingleQuoted,tagDoubleQuoted,tagQString]

/-- The low three bits name an open construct; for a q-string the upper bits are a character too. -/
def NamesConstruct (raw : Int32) : Prop :=
  bits raw % 8 = 1 ∨ bits raw % 8 = 2 ∨ bits raw % 8 = 3 ∨
    bits raw % 8 = 4 ∧ (raw >>> delimiterShift).toUInt32.isValidChar

theorem decode_normal_iff (raw : Int32) : decode raw = .normal ↔ raw < 0 ∨ ¬NamesConstruct raw := by
  by_cases negative : raw < 0
  · simp [decode,negative]
  have one : bits tagBlockComment = 1 := rfl
  have two : bits tagSingleQuoted = 2 := rfl
  have three : bits tagDoubleQuoted = 3 := rfl
  have four : bits tagQString = 4 := rfl
  simp only [decode,negative,↓reduceIte,tag_iff,NamesConstruct,one,two,three,four,false_or]
  split_ifs with first second third fourth
  · simp [first]
  · simp [second]
  · simp [third]
  · by_cases valid : (raw >>> delimiterShift).toUInt32.isValidChar
    · simp only [charFromU32,fourth,valid]
      simp
    · simp only [charFromU32,fourth,valid]
      simp
  · simp [first,second,third,fourth]

/-- A state survives its encoding, which is never negative. Of the integers that encode no state
those decode to the initial one that are negative or do not name a construct in their low bits. -/
theorem foreign_raw_restarts_iff (raw : Int32) : (∀ mode, ¬encode mode < 0 ∧ decode (encode mode) = mode) ∧
      ((∀ mode, encode mode ≠ raw) → (decode raw = .normal ↔ raw < 0 ∨ ¬NamesConstruct raw)) :=
  ⟨fun mode => ⟨encode_nonneg mode,decode_encode mode⟩,fun _ => decode_normal_iff raw⟩

/-- No state is encoded as nine, and it decodes to an open comment. -/
theorem nine_opens_comment : (∀ mode, encode mode ≠ 9) ∧ decode 9 = .blockComment := by
  refine ⟨fun mode => ?_,by decide⟩
  cases mode with
  | normal | blockComment | singleQuoted | doubleQuoted => decide
  | qString closing =>
    intro same
    have whole := bits_qString closing
    rw [same] at whole
    change 9 = _ at whole
    omega

end LexState
end Reldex
