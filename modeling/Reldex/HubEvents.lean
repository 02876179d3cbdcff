import Reldex.ReplySlots

/-! What crosses the C interface: the status of a call and the event a caller takes out. -/
namespace Reldex.Ffi

inductive ReldexStatus where
  | unknown | ok | error | invalidArgument | invalidState | notFound | panic | reentrant
  deriving DecidableEq, Repr

/-- The caller's own id of a request, which the library does not look at. -/
abbrev ReldexRequestId := Nat

def introducedIn32 : SessionEvent → Bool
  | .executing _ _ | .transactionStateChanged _ _ | .fetchedSegment _ _ _ _ => true
  | _ => false

/-- The size of the event up to `executing_request`, on a 64-bit target. -/
def eventSize32 : Nat := 168

/-- The size before `completed_operation` was appended. -/
def eventMinSize : Nat := 108

end Reldex.Ffi
