import Reldex.ResultStore

/-! The events a session produces: one reply for every accepted request, and what it
announces of its own accord. -/
namespace Reldex

abbrev RequestId := Nat

inductive SessionLifecycle where
  | usable | needsValidation | lost | closed
  deriving DecidableEq, Repr

inductive CompletedOperation where
  | commit | rollback | savepoint | rollbackToSavepoint | ping
  | closeResult (result : ResultId)
  | closeLob (lob : LobHandle)
  deriving DecidableEq, Repr

/-- The first three leave the session open. -/
inductive CloseError where
  | decisionRequired
  | commitFailed (error : DbError)
  | rollbackFailed (error : DbError)
  | failed (error : DbError)
  deriving DecidableEq, Repr

/-- A batch whose large objects were parked on the worker. -/
structure FetchedBatch where
  rowCount : Nat
  lobs : List (Nat × Nat × LobHandle)
  deriving DecidableEq, Repr

inductive SessionEvent where
  | opened (session : SessionId) (request : RequestId)
  | openFailed (session : SessionId) (request : RequestId) (error : DbError)
  | executed (session : SessionId) (request : RequestId) (outcome : Except DbError ExecuteOutcome)
  | fetched (session : SessionId) (request : RequestId) (result : ResultId) (batch : Except DbError FetchedBatch)
  | fetchedSegment (session : SessionId) (request : RequestId) (fetch : FetchTicket)
      (segment : Except DbError SegmentReply)
  | lobChunk (session : SessionId) (request : RequestId) (lob : LobHandle) (bytes : Except DbError (List UInt8))
  | completed (session : SessionId) (request : RequestId) (operation : CompletedOperation)
      (result : Except DbError Unit)
  | sessionClosed (session : SessionId) (request : RequestId) (result : Except CloseError Unit)
  | serverOutputConfigured (session : SessionId) (request : RequestId) (enabled : Except DbError Bool)
  | executing (session : SessionId) (request : RequestId)
  | serverOutput (session : SessionId) (lines : List String) (dropped : Nat) (failure : Option DbError)
      (invalidUtf8Lines : Nat)
  | transactionStateChanged (session : SessionId) (possiblyActive : Bool)
  | terminal (session : SessionId) (lifecycle : SessionLifecycle) (cause : Option DbError)
      (transactionPossiblyLost : Bool)

namespace SessionEvent

def session : SessionEvent → SessionId
  | .opened session _ | .openFailed session _ _ | .executed session _ _ | .fetched session _ _ _
  | .fetchedSegment session _ _ _ | .lobChunk session _ _ _ | .completed session _ _ _
  | .sessionClosed session _ _ | .serverOutputConfigured session _ _ | .executing session _
  | .serverOutput session _ _ _ _ | .transactionStateChanged session _ | .terminal session _ _ _ => session

def request : SessionEvent → Option RequestId
  | .opened _ request | .openFailed _ request _ | .executed _ request _ | .fetched _ request _ _
  | .fetchedSegment _ request _ _ | .lobChunk _ request _ _ | .completed _ request _ _
  | .sessionClosed _ request _ | .serverOutputConfigured _ request _ | .executing _ request => some request
  | .serverOutput _ _ _ _ _ | .transactionStateChanged _ _ | .terminal _ _ _ _ => none

/-- Whether this is the one reply to its request; `executing` is progress. -/
def isReply : SessionEvent → Bool
  | .opened _ _ | .openFailed _ _ _ | .executed _ _ _ | .fetched _ _ _ _ | .fetchedSegment _ _ _ _
  | .lobChunk _ _ _ _ | .completed _ _ _ _ | .sessionClosed _ _ _ | .serverOutputConfigured _ _ _ => true
  | .executing _ _ | .serverOutput _ _ _ _ _ | .transactionStateChanged _ _ | .terminal _ _ _ _ => false

end SessionEvent
end Reldex
