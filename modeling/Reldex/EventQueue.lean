import Reldex.SessionEvents

/-! The queue that carries the events of every session to one consumer. It is popped from
the front only. A session's unsolicited events are capped: a state is folded into one that
is still queued, output past the cap is dropped and counted. -/
namespace Reldex

structure EventCaps where
  maxUnsolicitedPerSession : NonZeroUsize

def SessionEvent.isUnsolicited : SessionEvent → Bool
  | .serverOutput _ _ _ _ _ | .transactionStateChanged _ _ => true
  | _ => false

namespace RequestSlots

/-- Takes one slot, or refuses because as many as the limit are taken. -/
def reserve (limit outstanding : Nat) : Except DbError Nat :=
  if outstanding ≥ limit then
    .error (.new .resource ("reldex-db-core: this session already has " ++ toString limit ++
      " requests outstanding (its configured limit); drain the event queue before submitting more"))
  else .ok (outstanding + 1)

/-- Gives one slot back; `none` if none is taken. -/
def release (outstanding : Nat) : Option Nat :=
  if outstanding = 0 then none else some (outstanding - 1)

end RequestSlots

structure Pushed where
  wake : Bool
  kept : Bool
  deriving DecidableEq, Repr

def Pushed.discarded : Pushed := ⟨false,false⟩

structure SessionQueueState where
  unsolicited : Nat
  droppedLines : Nat
  transactionSeq : Option Nat
  deriving DecidableEq, Repr

namespace SessionQueueState

def empty : SessionQueueState := ⟨0,0,none⟩

def isIdle (state : SessionQueueState) : Bool :=
  state.unsolicited == 0 && state.droppedLines == 0 && state.transactionSeq.isNone

/-- The event with this number was taken out. -/
def release (seq : Nat) (state : SessionQueueState) : SessionQueueState :=
  { state with
    unsolicited := state.unsolicited - 1
    transactionSeq := if state.transactionSeq = some seq then none else state.transactionSeq }

end SessionQueueState

/-- A queued event. A reply carries the slot that its request reserved, named by the session. -/
structure Queued where
  event : SessionEvent
  slot : Option SessionId

structure Inner where
  queue : List Queued
  frontSeq : Nat
  nextSeq : Nat
  sessions : SessionId → Option SessionQueueState
  closed : Bool

inductive Admission where
  | enqueue | enqueueWithoutLines | coalesced | dropped
  deriving DecidableEq, Repr

def SessionEvent.withPossiblyActive (possiblyActive : Bool) : SessionEvent → SessionEvent
  | .transactionStateChanged session _ => .transactionStateChanged session possiblyActive
  | event => event

def SessionEvent.withoutLines : SessionEvent → SessionEvent
  | .serverOutput session _ dropped failure invalidUtf8Lines =>
    .serverOutput session [] dropped failure invalidUtf8Lines
  | event => event

namespace Inner

def start : Inner := ⟨[],0,0,fun _ => none,false⟩

def queuedTransactionSlot (session : SessionId) (inner : Inner) : Option Nat := do
  let state ← inner.sessions session
  let seq ← state.transactionSeq
  if inner.frontSeq ≤ seq then some (seq - inner.frontSeq) else none

def setSession (session : SessionId) (state : Option SessionQueueState) (inner : Inner) : Inner :=
  { inner with sessions := Function.update inner.sessions session state }

def admitUnsolicited (caps : EventCaps) (event : SessionEvent) (inner : Inner) : Admission × Inner :=
  match event with
  | .transactionStateChanged session possiblyActive =>
    match inner.queuedTransactionSlot session with
    | none => (.enqueue,inner)
    | some slot =>
      match (inner.queue[slot]?).map Queued.event with
      | some (.transactionStateChanged _ _) =>
        (.coalesced,{ inner with queue := inner.queue.modify slot fun queued =>
          { queued with event := queued.event.withPossiblyActive possiblyActive } })
      | _ => (.enqueue,inner)
  | event =>
    match inner.sessions event.session with
    | none => (.enqueue,inner)
    | some state =>
      if state.unsolicited ≥ caps.maxUnsolicitedPerSession.val then
        match event with
        | .serverOutput session lines _ failure _ =>
          let lost := min lines.length u32Max
          let counted := inner.setSession session
            (some { state with droppedLines := saturatingAdd32 state.droppedLines lost })
          if failure.isSome then (.enqueueWithoutLines,counted) else (.dropped,counted)
        | _ => (.dropped,inner)
      else (.enqueue,inner)

/-- Records an unsolicited event that is about to be queued; the lines dropped so far
ride out on output. -/
def stampUnsolicited (event : SessionEvent) (inner : Inner) : SessionEvent × Inner :=
  if !event.isUnsolicited then (event,inner)
  else
    let state := (inner.sessions event.session).getD .empty
    let state := { state with unsolicited := state.unsolicited + 1 }
    match event with
    | .transactionStateChanged session possiblyActive =>
      (.transactionStateChanged session possiblyActive,
        inner.setSession session (some { state with transactionSeq := some inner.nextSeq }))
    | .serverOutput session lines dropped failure invalidUtf8Lines =>
      (.serverOutput session lines (saturatingAdd32 dropped state.droppedLines) failure invalidUtf8Lines,
        inner.setSession session (some { state with droppedLines := 0 }))
    | event => (event,inner.setSession event.session (some state))

def releaseUnsolicited (session : SessionId) (seq : Nat) (inner : Inner) : Inner :=
  match inner.sessions session with
  | none => inner
  | some state =>
    let state := state.release seq
    inner.setSession session (if state.isIdle then none else some state)

def pop (inner : Inner) : Option (Queued × Inner) :=
  match inner.queue with
  | [] => none
  | queued :: rest =>
    let popped := { inner with queue := rest, frontSeq := inner.frontSeq + 1 }
    some (queued,
      if queued.event.isUnsolicited then popped.releaseUnsolicited queued.event.session inner.frontSeq
      else popped)

def enqueue (event : SessionEvent) (slot : Option SessionId) (inner : Inner) : Inner :=
  let stamped := inner.stampUnsolicited event
  { stamped.2 with queue := stamped.2.queue ++ [⟨stamped.1,slot⟩], nextSeq := stamped.2.nextSeq + 1 }

end Inner

structure Shared where
  inner : Inner
  droppedUnsolicited : Nat

namespace Shared

def start : Shared := ⟨.start,0⟩

/-- Queues an event and says what became of it. A reply comes with its slot. -/
def push (caps : EventCaps) (event : SessionEvent) (slot : Option SessionId) (shared : Shared) : Pushed × Shared :=
  if shared.inner.closed then (.discarded,shared)
  else
    let kept : Pushed := ⟨shared.inner.queue.isEmpty,true⟩
    if event.isUnsolicited then
      match shared.inner.admitUnsolicited caps event with
      | (.enqueue,inner) => (kept,{ shared with inner := inner.enqueue event slot })
      | (.enqueueWithoutLines,inner) => (kept,{ shared with inner := inner.enqueue event.withoutLines slot })
      | (.coalesced,inner) => (.discarded,{ shared with inner := inner })
      | (.dropped,inner) => (.discarded,⟨inner,shared.droppedUnsolicited + 1⟩)
    else (kept,{ shared with inner := shared.inner.enqueue event slot })

def pendingDroppedLines (session : SessionId) (shared : Shared) : Nat :=
  ((shared.inner.sessions session).map SessionQueueState.droppedLines).getD 0

end Shared
end Reldex
