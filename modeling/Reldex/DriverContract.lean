import Reldex.NumberDisplay

/-! The data of the driver contract: errors, identifiers, and column-oriented batches.
A column keeps its values beside a NULL mask of the same length; values at NULL rows
are placeholders. -/
namespace Reldex

def u32Max : Nat := 2^32 - 1
def saturatingAdd32 (a b : Nat) : Nat := min (a + b) u32Max

inductive ErrorKind where
  | configuration | connection | authentication | networkLost | timeout | cancelled | syntaxError
  | constraint | permission | transaction | resource | dataConversion | unsupported
  | driverInternal | other
  deriving DecidableEq, Repr

/-- What the driver believes about the session after a failure. -/
inductive SessionState where
  | usable | needsValidation | lost
  deriving DecidableEq, Repr

def SessionState.initialFor : ErrorKind → SessionState
  | .networkLost => .lost
  | .connection | .timeout | .cancelled | .driverInternal => .needsValidation
  | _ => .usable

structure DbError where
  kind : ErrorKind
  sessionState : SessionState
  message : String
  deriving DecidableEq, Repr

namespace DbError

def new (kind : ErrorKind) (message : String) : DbError := ⟨kind,.initialFor kind,message⟩
def internal (message : String) : DbError := new .driverInternal message

end DbError

abbrev SessionId := Nat

/-- Allocation starts at one; zero names no session. -/
def SessionId.unowned : SessionId := 0

structure ResultId where
  session : SessionId
  result : Nat
  deriving DecidableEq, Repr

structure LobHandle where
  session : SessionId
  serial : Nat
  deriving DecidableEq, Repr

structure NullMask where
  bits : List UInt64
  len : Nat
  sized : bits.length = (len + 63) / 64
  deriving DecidableEq, Repr

def NullMask.isNull (mask : NullMask) (row : Nat) : Bool :=
  decide (row < mask.len) && (mask.bits.getD (row / 64) 0 >>> (row % 64).toUInt64) &&& 1 == 1

/-- Texts in one buffer; value `row` lies between offsets `row` and `row + 1`. -/
structure TextColumn where
  buffer : Text
  offsets : List Nat
  deriving DecidableEq, Repr

namespace TextColumn

def get (c : TextColumn) (row : Nat) : Option Text := do
  let start ← c.offsets[row]?
  let stop ← c.offsets[row + 1]?
  checkedSlice c.buffer start stop

def count (c : TextColumn) : Nat := c.offsets.length - 1

def heapBytes (c : TextColumn) : Nat := len c.buffer + 8 * c.offsets.length

end TextColumn

structure BytesColumn where
  buffer : List UInt8
  offsets : List Nat
  deriving DecidableEq, Repr

namespace BytesColumn

def get (c : BytesColumn) (row : Nat) : Option (List UInt8) := do
  let start ← c.offsets[row]?
  let stop ← c.offsets[row + 1]?
  if start ≤ stop ∧ stop ≤ c.buffer.length then some ((c.buffer.take stop).drop start) else none

def count (c : BytesColumn) : Nat := c.offsets.length - 1

def heapBytes (c : BytesColumn) : Nat := c.buffer.length + 8 * c.offsets.length

end BytesColumn

inductive TimeZone where
  | unspecified
  | offset (minutes : Int16)
  deriving DecidableEq, Repr

structure Timestamp where
  year : Int16
  month : UInt8
  day : UInt8
  hour : UInt8
  minute : UInt8
  second : UInt8
  nanosecond : UInt32
  zone : TimeZone
  deriving DecidableEq, Repr

/-- The fields of `Number` are private, so only canonical numbers exist outside it. -/
abbrev CanonicalNumber := { n : Number // n.Canonical }

inductive ColumnKind where
  | boolean | number | float | double | text | bytes | timestamp | json | lob | unsupported
  deriving DecidableEq, Repr

/-- One column's values. Binary floats are their bit patterns; `L` is the driver's
large-object locator, absent once it has been taken. -/
inductive ColumnData (L : Type) where
  | boolean (values : List Bool)
  | number (values : List CanonicalNumber)
  | float (values : List UInt32)
  | double (values : List UInt64)
  | text (values : TextColumn)
  | bytes (values : BytesColumn)
  | timestamp (values : List Timestamp)
  | json (values : TextColumn)
  | lob (values : List (Option L))
  | unsupported (values : TextColumn)

namespace ColumnData

def count : ColumnData L → Nat
  | .boolean values => values.length
  | .number values => values.length
  | .float values => values.length
  | .double values => values.length
  | .text values | .json values | .unsupported values => values.count
  | .bytes values => values.count
  | .timestamp values => values.length
  | .lob values => values.length

def kind : ColumnData L → ColumnKind
  | .boolean _ => .boolean
  | .number _ => .number
  | .float _ => .float
  | .double _ => .double
  | .text _ => .text
  | .bytes _ => .bytes
  | .timestamp _ => .timestamp
  | .json _ => .json
  | .lob _ => .lob
  | .unsupported _ => .unsupported

end ColumnData

/-- `Column::new` refuses a mask of another length. -/
structure Column (L : Type) where
  data : ColumnData L
  nulls : NullMask
  aligned : data.count = nulls.len

inductive ValueRef (L : Type) where
  | null
  | boolean (value : Bool)
  | number (value : CanonicalNumber)
  | float (value : UInt32)
  | double (value : UInt64)
  | text (value : Text)
  | bytes (value : List UInt8)
  | timestamp (value : Timestamp)
  | json (value : Text)
  | lob (locator : L)
  | unsupported (value : Text)
  | taken

def Column.value (c : Column L) (row : Nat) : Option (ValueRef L) :=
  if c.data.count ≤ row then none
  else if c.nulls.isNull row then some .null
  else match c.data with
    | .boolean values => values[row]?.map .boolean
    | .number values => values[row]?.map .number
    | .float values => values[row]?.map .float
    | .double values => values[row]?.map .double
    | .text values => (values.get row).map .text
    | .json values => (values.get row).map .json
    | .bytes values => (values.get row).map .bytes
    | .timestamp values => values[row]?.map .timestamp
    | .unsupported values => (values.get row).map .unsupported
    | .lob values => values[row]?.map fun locator =>
      match locator with
      | some locator => .lob locator
      | none => .taken

/-- `RowBatch::new` refuses columns of different lengths. -/
structure RowBatch (L : Type) where
  columns : List (Column L)
  rowCount : Nat
  even : ∀ c ∈ columns, c.data.count = rowCount

def RowBatch.value (b : RowBatch L) (row column : Nat) : Option (ValueRef L) := do
  let c ← b.columns[column]?
  c.value row

end Reldex
