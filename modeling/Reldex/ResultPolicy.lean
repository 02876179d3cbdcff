import Reldex.Segments

/-! The caps and fetch settings one result store runs under, and the row width the
first round trip is sized by. Sizes are `usize` with saturating arithmetic. -/
namespace Reldex
open Nat

def usizeMax : Nat := 2^64 - 1
def saturatingAdd (a b : Nat) : Nat := min (a + b) usizeMax
def saturatingMul (a b : Nat) : Nat := min (a * b) usizeMax

abbrev NonZeroUsize := { n : Nat // 0 < n ∧ n ≤ usizeMax }

theorem saturatingAdd_eq (fits : a + b ≤ usizeMax) : saturatingAdd a b = a + b := min_eq_left fits

theorem saturatingAdd_of_lt (below : saturatingAdd a b < usizeMax) : saturatingAdd a b = a + b := by
  unfold saturatingAdd at *
  omega

theorem saturatingMul_eq (fits : a * b ≤ usizeMax) : saturatingMul a b = a * b := min_eq_left fits

theorem saturatingMul_le : saturatingMul a b ≤ usizeMax := min_le_right ..

theorem one_nonzero : 0 < 1 ∧ 1 ≤ usizeMax := by decide

def gridRowCeiling : Nat := 2147483647
def defaultFetchRows : NonZeroUsize := ⟨1000,by decide⟩
def defaultRoundTripBytes : NonZeroUsize := ⟨192 * 1024,by decide⟩
def defaultFetchesInFlight : NonZeroUsize := ⟨2,by decide⟩

inductive Cap where
  | at (value : NonZeroUsize)
  | unlimited
  deriving DecidableEq

namespace Cap

def limit : Cap → Option Nat
  | .at value => some value
  | .unlimited => none

def raisedBy : Cap → Cap → Cap
  | .at value, .at step =>
    .at ⟨saturatingAdd value step,by
      have := value.2; have := step.2; unfold saturatingAdd usizeMax at *; omega⟩
  | _, _ => .unlimited

theorem raisedBy_limit {cap step : Cap} {raised : Nat} (finite : (cap.raisedBy step).limit = some raised) :
    ∃ before, cap.limit = some before ∧ before ≤ raised := by
  cases cap with
  | unlimited => simp [raisedBy,limit] at finite
  | «at» value =>
    cases step with
    | unlimited => simp [raisedBy,limit] at finite
    | «at» step =>
      simp only [raisedBy,limit,Option.some.injEq] at finite
      refine ⟨value,rfl,?_⟩
      rw [← finite,saturatingAdd]
      have := value.2
      omega

theorem limit_le {cap : Cap} (finite : cap.limit = some bytes) : 0 < bytes ∧ bytes ≤ usizeMax := by
  cases cap with
  | unlimited => cases finite
  | «at» value => cases finite; exact value.2

end Cap

inductive CapSource where
  | builtIn | application | profile | worksheet | fetchMore
  deriving DecidableEq, Repr

structure Sourced (α : Type) where
  value : α
  source : CapSource

structure ResultCaps where
  maxRows : Sourced Cap
  maxBytes : Sourced Cap
  closeCursorAtLimit : Sourced Bool := ⟨false,.builtIn⟩

namespace ResultCaps

def raisedBy (caps steps : ResultCaps) : ResultCaps :=
  { caps with
    maxRows := ⟨caps.maxRows.value.raisedBy steps.maxRows.value,.fetchMore⟩
    maxBytes := ⟨caps.maxBytes.value.raisedBy steps.maxBytes.value,.fetchMore⟩ }

def lifted (caps : ResultCaps) : ResultCaps :=
  { caps with maxRows := ⟨.unlimited,.fetchMore⟩, maxBytes := ⟨.unlimited,.fetchMore⟩ }

end ResultCaps

structure ResultPolicy where
  caps : ResultCaps
  fetchRows : NonZeroUsize := defaultFetchRows
  fetchesInFlight : NonZeroUsize := defaultFetchesInFlight
  roundTripBytes : NonZeroUsize := defaultRoundTripBytes

inductive SqlType where
  | boolean | number | binaryFloat | binaryDouble
  | text (national fixedLength : Bool)
  | date | timestamp | timestampWithTimeZone | raw
  | characterLob (national : Bool)
  | binaryLob | json | cursor | unsupported
  deriving DecidableEq, Repr

structure ColumnMetadata where
  sqlType : SqlType
  maxSizeBytes : Option UInt32
  deriving DecidableEq, Repr

def unknownVariableWidth : Nat := 4000
def unsupportedMinWidth : Nat := 64

def ColumnMetadata.variableWidth (c : ColumnMetadata) : Nat :=
  saturatingAdd (c.maxSizeBytes.elim unknownVariableWidth UInt32.toNat) 8

def ColumnMetadata.cellWidth (c : ColumnMetadata) : Nat :=
  match c.sqlType with
  | .boolean => 1
  | .number => 44
  | .binaryFloat => 4
  | .binaryDouble => 8
  | .date | .timestamp | .timestampWithTimeZone => 16
  | .characterLob _ | .binaryLob => lobCellBytes
  | .unsupported => max c.variableWidth (unsupportedMinWidth + 8)
  | .text _ _ | .raw | .json | .cursor => c.variableWidth

/-- What a row takes by the description: its cells and their NULL bits, at least a byte. -/
def declaredRowWidth (columns : List ColumnMetadata) : Nat :=
  let cells := columns.foldl (fun width c => saturatingAdd width c.cellWidth) 0
  max (saturatingAdd cells ((columns.length + 7) / 8)) 1

theorem declaredRowWidth_pos (columns : List ColumnMetadata) : 1 ≤ declaredRowWidth columns := le_max_right ..

theorem declaredRowWidth_le (columns : List ColumnMetadata) : declaredRowWidth columns ≤ usizeMax :=
  Nat.max_le.mpr ⟨Nat.min_le_right ..,by decide⟩

example : declaredRowWidth [⟨.number,none⟩,⟨.text false false,some 160⟩,⟨.date,none⟩] = 229 := by decide

end Reldex
