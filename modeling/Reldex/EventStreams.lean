import Reldex.EventQueue
import Reldex.SequencedQueue

/-! What one session's consumer sees of the queue. The sequence numbers and the records of
the sessions stay in step with what is queued, so that the queue is, for every session, a
stream of its own: what was pushed, less the output that met the cap. -/
namespace Reldex
open List

def SessionEvent.isTransaction : SessionEvent → Bool
  | .transactionStateChanged _ _ => true
  | _ => false

/-- The events of one session: those taken out, those still waiting, and the lines dropped
that no event has reported yet. -/
structure Stream where
  delivered : List SessionEvent
  waiting : List SessionEvent
  pending : Nat

namespace Stream

def empty : Stream := ⟨[],[],0⟩
def atCap (cap : Nat) (stream : Stream) : Prop := cap ≤ stream.waiting.countP SessionEvent.isUnsolicited

instance (cap : Nat) (stream : Stream) : Decidable (stream.atCap cap) :=
  inferInstanceAs (Decidable (cap ≤ stream.waiting.countP SessionEvent.isUnsolicited))

def output (session : SessionId) (lines : List String) (dropped : Nat) (failure : Option DbError)
    (invalidUtf8Lines : Nat) (pending : Nat) (stream : Stream) : Stream :=
  { stream with
    waiting := stream.waiting ++
      [.serverOutput session lines (saturatingAdd32 dropped pending) failure invalidUtf8Lines]
    pending := 0 }

/-- A state is folded into one that waits; at the cap output is dropped, or stripped of its
lines if it carries a failure; everything else waits in turn. -/
def push (cap : Nat) (stream : Stream) : SessionEvent → Stream
  | .transactionStateChanged session possiblyActive =>
    if stream.waiting.any SessionEvent.isTransaction then
      { stream with waiting := stream.waiting.map (·.withPossiblyActive possiblyActive) }
    else { stream with waiting := stream.waiting ++ [.transactionStateChanged session possiblyActive] }
  | .serverOutput session lines dropped failure invalidUtf8Lines =>
    if stream.atCap cap then
      let pending := saturatingAdd32 stream.pending (min lines.length u32Max)
      if failure.isSome then stream.output session [] dropped failure invalidUtf8Lines pending
      else { stream with pending := pending }
    else stream.output session lines dropped failure invalidUtf8Lines stream.pending
  | event => { stream with waiting := stream.waiting ++ [event] }

def take (stream : Stream) : Stream :=
  match stream.waiting with
  | [] => stream
  | event :: rest => { stream with delivered := stream.delivered ++ [event], waiting := rest }

end Stream

inductive Happening where
  | pushed (event : SessionEvent)
  | delivered (event : SessionEvent)

namespace Happening

def session : Happening → SessionId
  | .pushed event | .delivered event => event.session

@[simp] theorem session_pushed (event : SessionEvent) : (Happening.pushed event).session = event.session := rfl

@[simp] theorem session_delivered (event : SessionEvent) : (Happening.delivered event).session = event.session := rfl

def deliveredEvent : Happening → Option SessionEvent
  | .pushed _ => none
  | .delivered event => some event

def pushedEvent : Happening → Option SessionEvent
  | .pushed event => some event
  | .delivered _ => none

end Happening

def Stream.happens (cap : Nat) (stream : Stream) : Happening → Stream
  | .pushed event => stream.push cap event
  | .delivered _ => stream.take

def Stream.run (cap : Nat) (happenings : List Happening) : Stream := happenings.foldl (Stream.happens cap) .empty

inductive QueueOp where
  | push (event : SessionEvent) (slot : Option SessionId)
  | pop

structure Traffic where
  shared : Shared
  trace : List Happening

namespace Traffic

def start : Traffic := ⟨.start,[]⟩

def step (caps : EventCaps) (traffic : Traffic) : QueueOp → Traffic
  | .push event slot => ⟨(traffic.shared.push caps event slot).2,traffic.trace ++ [.pushed event]⟩
  | .pop =>
    match traffic.shared.inner.pop with
    | none => traffic
    | some (queued,inner) => ⟨{ traffic.shared with inner := inner },traffic.trace ++ [.delivered queued.event]⟩

def run (caps : EventCaps) (ops : List QueueOp) : Traffic := ops.foldl (step caps) start

end Traffic

def Inner.waiting (session : SessionId) (inner : Inner) : List SessionEvent :=
  (inner.queue.map Queued.event).filter (·.session == session)

def Traffic.stream (session : SessionId) (traffic : Traffic) : Stream where
  delivered := (traffic.trace.filterMap Happening.deliveredEvent).filter (·.session == session)
  waiting := traffic.shared.inner.waiting session
  pending := traffic.shared.pendingDroppedLines session

namespace Inner
open SessionEvent (isUnsolicited isTransaction)

/-- The session's record; one that was removed was empty. -/
def record (session : SessionId) (inner : Inner) : SessionQueueState := (inner.sessions session).getD .empty

structure Coherent (inner : Inner) : Prop where
  opened : inner.closed = false
  numbered : inner.nextSeq = inner.frontSeq + inner.queue.length
  counted : ∀ session, (inner.record session).unsolicited = (inner.waiting session).countP isUnsolicited
  marked : ∀ session, Sequenced.Marks
    (fun queued : Queued => queued.event.isTransaction = true ∧ queued.event.session = session)
    inner.frontSeq inner.queue (inner.record session).transactionSeq

section
variable (inner : Inner) (session named : SessionId) (state : Option SessionQueueState)

@[simp] theorem record_setSession :
    (inner.setSession session state).record named = if named = session then state.getD .empty else inner.record named := by
  by_cases same : named = session
  · subst same
    simp [record,setSession]
  · simp [record,setSession,same]

variable (session : SessionId) (state : Option SessionQueueState)

@[simp] theorem setSession_queue : (inner.setSession session state).queue = inner.queue := rfl

@[simp] theorem setSession_frontSeq : (inner.setSession session state).frontSeq = inner.frontSeq := rfl

@[simp] theorem setSession_waiting : (inner.setSession session state).waiting named = inner.waiting named := rfl

theorem state_of_isIdle {state : SessionQueueState} (idle : state.isIdle = true) : state = .empty := by
  obtain ⟨unsolicited,droppedLines,transactionSeq⟩ := state
  simp only [SessionQueueState.isIdle,Bool.and_eq_true,beq_iff_eq,Option.isNone_iff_eq_none] at idle
  simp [SessionQueueState.empty,idle]

theorem record_releaseUnsolicited (session named : SessionId) (seq : Nat) :
    (inner.releaseUnsolicited session seq).record named =
      if named = session then (inner.record session).release seq else inner.record named := by
  unfold releaseUnsolicited
  split
  · rename_i absent
    split
    · rename_i same
      subst same
      simp [record,absent,SessionQueueState.empty,SessionQueueState.release]
    · rfl
  · rename_i state found
    have here : inner.record session = state := by simp [record,found]
    rw [record_setSession,here]
    cases idle : (state.release seq).isIdle with
    | false => rfl
    | true => rw [state_of_isIdle idle]; rfl

theorem releaseUnsolicited_rest (session : SessionId) (seq : Nat) :
    (inner.releaseUnsolicited session seq).queue = inner.queue ∧
    (inner.releaseUnsolicited session seq).frontSeq = inner.frontSeq ∧
    (inner.releaseUnsolicited session seq).nextSeq = inner.nextSeq ∧
    (inner.releaseUnsolicited session seq).closed = inner.closed := by
  unfold releaseUnsolicited
  split <;> exact ⟨rfl,rfl,rfl,rfl⟩

end

variable {inner next : Inner}

theorem waiting_append (grown : next.queue = inner.queue ++ [queued]) (session : SessionId) :
    next.waiting session = inner.waiting session ++ if queued.event.session = session then [queued.event] else [] := by
  unfold waiting
  rw [grown,map_append,filter_append]
  by_cases same : queued.event.session = session <;> simp [same]

theorem waiting_cons (before : inner.queue = queued :: next.queue) (session : SessionId) :
    inner.waiting session = (if queued.event.session = session then [queued.event] else []) ++ next.waiting session := by
  unfold waiting
  rw [before,map_cons,filter_cons]
  by_cases same : queued.event.session = session <;> simp [same]

theorem Coherent.append (queued : Queued) (coherent : Coherent inner) (opened : next.closed = inner.closed)
    (grown : next.queue = inner.queue ++ [queued]) (front : next.frontSeq = inner.frontSeq)
    (numbered : next.nextSeq = inner.nextSeq + 1)
    (counted : ∀ session, (next.record session).unsolicited = (inner.record session).unsolicited +
      if queued.event.isUnsolicited = true ∧ queued.event.session = session then 1 else 0)
    (marked : ∀ session, (next.record session).transactionSeq =
      if queued.event.isTransaction = true ∧ queued.event.session = session then some inner.nextSeq
      else (inner.record session).transactionSeq)
    (free : queued.event.isTransaction = true → (inner.record queued.event.session).transactionSeq = none) :
    Coherent next where
  opened := opened.trans coherent.opened
  numbered := by
    rw [numbered,front,grown,coherent.numbered,length_append]
    rfl
  counted session := by
    rw [counted,waiting_append grown,countP_append,coherent.counted]
    by_cases same : queued.event.session = session
    · cases kind : queued.event.isUnsolicited <;> simp [same,kind]
    · simp [same]
  marked session := by
    have marks := coherent.marked session
    rw [front,grown,marked]
    by_cases kind : queued.event.isTransaction = true ∧ queued.event.session = session
    · rw [if_pos kind,coherent.numbered]
      refine Sequenced.Marks.concat_first ?_ kind
      rwa [← kind.2,free kind.1,kind.2] at marks
    · rw [if_neg kind]
      exact marks.concat_other kind

def stream (delivered : List SessionEvent) (session : SessionId) (inner : Inner) : Stream :=
  ⟨delivered,inner.waiting session,(inner.record session).droppedLines⟩

def Moves (session : SessionId) (move : Stream → Stream) (inner next : Inner) : Prop :=
  ∀ delivered named, next.stream delivered named =
    if session = named then move (inner.stream delivered named) else inner.stream delivered named

theorem Moves.congr (moves : Moves session f inner next)
    (same : ∀ delivered, f (inner.stream delivered session) = g (inner.stream delivered session)) :
    Moves session g inner next := by
  intro delivered named
  rw [moves]
  split
  · rename_i own
    subst own
    exact same delivered
  · rfl

theorem Moves.trans (first : Moves session f a b) (second : Moves session g b c) : Moves session (g ∘ f) a c := by
  intro delivered named
  rw [second,first]
  split <;> rfl

def accept (event : SessionEvent) (stream : Stream) : Stream :=
  match event with
  | .serverOutput session lines dropped failure invalidUtf8Lines =>
    stream.output session lines dropped failure invalidUtf8Lines stream.pending
  | event => { stream with waiting := stream.waiting ++ [event] }

theorem stamp_unsolicited (event : SessionEvent) (inner : Inner) (unsolicited : event.isUnsolicited = true) :
    ∃ stamped state, inner.stampUnsolicited event = (stamped,inner.setSession event.session (some state)) ∧
      stamped.session = event.session ∧ stamped.isUnsolicited = true ∧ stamped.isTransaction = event.isTransaction ∧
      state.unsolicited = (inner.record event.session).unsolicited + 1 ∧
      state.transactionSeq = (if event.isTransaction then some inner.nextSeq
        else (inner.record event.session).transactionSeq) ∧
      ∀ delivered, (⟨delivered,inner.waiting event.session ++ [stamped],state.droppedLines⟩ : Stream) =
        accept event (inner.stream delivered event.session) := by
  cases event with
  | serverOutput | transactionStateChanged => exact ⟨_,_,rfl,rfl,rfl,rfl,rfl,rfl,fun _ => rfl⟩
  | _ => cases unsolicited

theorem enqueue_moves (event : SessionEvent) (slot : Option SessionId) (coherent : Coherent inner)
    (free : event.isTransaction = true → (inner.record event.session).transactionSeq = none) :
    Coherent (inner.enqueue event slot) ∧ Moves event.session (accept event) inner (inner.enqueue event slot) := by
  cases unsolicited : event.isUnsolicited with
  | false =>
    have same : inner.enqueue event slot =
        { inner with queue := inner.queue ++ [⟨event,slot⟩], nextSeq := inner.nextSeq + 1 } := by
      simp [enqueue,stampUnsolicited,unsolicited]
    have other : event.isTransaction = false := by cases event <;> first | rfl | cases unsolicited
    have joins (stream : Stream) : accept event stream = { stream with waiting := stream.waiting ++ [event] } := by
      cases event <;> first | rfl | cases unsolicited
    rw [same]
    refine ⟨coherent.append ⟨event,slot⟩ rfl rfl rfl rfl (fun session => ?_) (fun session => ?_) free,
      fun delivered named => ?_⟩
    · simp [unsolicited,record]
    · simp [other,record]
    · unfold stream
      rw [waiting_append (rfl : _ = inner.queue ++ [⟨event,slot⟩]) named]
      by_cases own : event.session = named <;> simp [own,record,joins]
  | true =>
    obtain ⟨stamped,state,stamp,session,kind,transaction,counted,marked,moved⟩ := stamp_unsolicited event inner unsolicited
    have same : inner.enqueue event slot = { inner.setSession event.session (some state) with
        queue := inner.queue ++ [⟨stamped,slot⟩], nextSeq := inner.nextSeq + 1 } := by
      simp only [enqueue,stamp]
      rfl
    have records := fun named => record_setSession inner event.session named (some state)
    rw [same]
    refine ⟨coherent.append ⟨stamped,slot⟩ rfl rfl rfl rfl (fun named => (congrArg _ (records named)).trans ?_)
      (fun named => (congrArg _ (records named)).trans ?_) (by simpa [transaction,session] using free),
      fun delivered named => (congrArg₂ (Stream.mk delivered) (waiting_append rfl named)
        (congrArg SessionQueueState.droppedLines (records named))).trans ?_⟩
    all_goals by_cases own : named = event.session
    · simp [own,kind,session,counted]
    · simp [own,session,Ne.symm own]
    · simp [own,session,transaction,marked]
    · simp [own,session,Ne.symm own]
    · simp [own,session,← moved]
    · simp [own,session,Ne.symm own,stream]

theorem setSession_dropped (coherent : Coherent inner) (found : inner.sessions session = some state) (droppedLines : Nat) :
    Coherent (inner.setSession session (some { state with droppedLines := droppedLines })) ∧
    Moves session (fun stream => { stream with pending := droppedLines }) inner
      (inner.setSession session (some { state with droppedLines := droppedLines })) := by
  have here : inner.record session = state := by simp [record,found]
  have records := fun named => record_setSession inner session named (some { state with droppedLines := droppedLines })
  refine ⟨⟨coherent.opened,coherent.numbered,fun named => ?_,fun named => ?_⟩,fun delivered named => ?_⟩
  · rw [records]
    by_cases own : named = session
    · simpa [own,← here] using coherent.counted session
    · simpa [own] using coherent.counted named
  · rw [records]
    by_cases own : named = session
    · simpa [own,← here] using coherent.marked session
    · simpa [own] using coherent.marked named
  · unfold stream
    rw [records]
    by_cases own : named = session
    · simp [own]
    · simp [own,Ne.symm own]

section

def refresh (possiblyActive : Bool) (queued : Queued) : Queued :=
  { queued with event := queued.event.withPossiblyActive possiblyActive }

variable (possiblyActive : Bool) (event : SessionEvent)

@[simp] theorem withPossiblyActive_session : (event.withPossiblyActive possiblyActive).session = event.session := by
  cases event <;> rfl

@[simp] theorem withPossiblyActive_isTransaction :
    (event.withPossiblyActive possiblyActive).isTransaction = event.isTransaction := by
  cases event <;> rfl

@[simp] theorem withPossiblyActive_isUnsolicited :
    (event.withPossiblyActive possiblyActive).isUnsolicited = event.isUnsolicited := by
  cases event <;> rfl

theorem withPossiblyActive_other (other : event.isTransaction = false) :
    event.withPossiblyActive possiblyActive = event := by
  cases event <;> first | rfl | simp [isTransaction] at other

theorem waiting_fold (session named : SessionId) (queue : List Queued) :
    ((queue.map fun queued => if queued.event.isTransaction = true ∧ queued.event.session = session then
      refresh possiblyActive queued else queued).map Queued.event).filter (·.session == named) =
    if session = named then
      ((queue.map Queued.event).filter (·.session == named)).map (·.withPossiblyActive possiblyActive)
    else (queue.map Queued.event).filter (·.session == named) := by
  induction queue with
  | nil => simp
  | cons queued rest ih =>
    simp only [map_cons,filter_cons,ih]
    by_cases own : queued.event.session = named
    · subst own
      by_cases same : session = queued.event.session
      · subst same
        cases kind : queued.event.isTransaction
        · simp [withPossiblyActive_other possiblyActive queued.event kind]
        · simp [refresh]
      · simp [same,Ne.symm same]
    · have kept : (if queued.event.isTransaction = true ∧ queued.event.session = session then
          refresh possiblyActive queued else queued).event.session = queued.event.session := by
        split <;> simp [refresh]
      simp only [kept,own,beq_iff_eq,↓reduceIte]

end

section
variable (coherent : Coherent inner)
include coherent

theorem fold_transaction (possiblyActive : Bool) (marked : (inner.record session).transactionSeq = some seq) :
    Coherent { inner with queue := inner.queue.modify (seq - inner.frontSeq) (refresh possiblyActive) } ∧
    Moves session (fun stream => { stream with waiting := stream.waiting.map (·.withPossiblyActive possiblyActive) })
      inner { inner with queue := inner.queue.modify (seq - inner.frontSeq) (refresh possiblyActive) } := by
  have marks := coherent.marked session
  rw [marked] at marks
  rw [marks.modify_eq_map]
  refine ⟨⟨coherent.opened,?_,fun named => ?_,fun named => ?_⟩,fun delivered named => ?_⟩
  · simpa using coherent.numbered
  · refine (coherent.counted named).trans ?_
    unfold waiting
    rw [waiting_fold]
    split
    · rw [countP_map]
      exact countP_congr fun event _ => by simp
    · rfl
  · refine (coherent.marked named).map fun queued => ?_
    split <;> simp [refresh]
  · unfold stream waiting
    rw [waiting_fold]
    split <;> rfl

theorem Coherent.pop (popped : inner.pop = some (queued,next)) :
    Coherent next ∧ ∀ delivered named, inner.stream delivered named =
      { next.stream delivered named with
        waiting := (if queued.event.session = named then [queued.event] else []) ++ next.waiting named } := by
  unfold Inner.pop at popped
  split at popped
  · cases popped
  · rename_i front rest before
    simp only [Option.some.injEq,Prod.mk.injEq] at popped
    obtain ⟨rfl,rfl⟩ := popped
    let shorter : Inner := { inner with queue := rest, frontSeq := inner.frontSeq + 1 }
    let after := if front.event.isUnsolicited then
      shorter.releaseUnsolicited front.event.session inner.frontSeq else shorter
    have keeps : after.queue = rest ∧ after.frontSeq = inner.frontSeq + 1 ∧ after.nextSeq = inner.nextSeq ∧
        after.closed = inner.closed := by
      simp only [after]
      split
      · exact releaseUnsolicited_rest shorter _ _
      · exact ⟨rfl,rfl,rfl,rfl⟩
    have records : ∀ named, after.record named = if front.event.isUnsolicited = true ∧ named = front.event.session then
          (inner.record named).release inner.frontSeq else inner.record named := by
      intro named
      simp only [after]
      by_cases kind : front.event.isUnsolicited = true
      · rw [if_pos kind,record_releaseUnsolicited]
        by_cases own : named = front.event.session
        · subst own
          simp [kind,shorter,record]
        · simp [own,shorter,record]
      · rw [if_neg kind,if_neg fun both => kind both.1]
        rfl
    have waits : ∀ named, inner.waiting named =
        (if front.event.session = named then [front.event] else []) ++ after.waiting named :=
      fun named => waiting_cons (by rw [before,keeps.1]) named
    change Coherent after ∧ ∀ delivered named, _ = Stream.mk delivered _ (after.record named).droppedLines
    refine ⟨⟨keeps.2.2.2.trans coherent.opened,?_,fun named => ?_,fun named => ?_⟩,fun delivered named => ?_⟩
    · rw [keeps.2.2.1,coherent.numbered,keeps.2.1,keeps.1,before,length_cons]
      omega
    · have counted := coherent.counted named
      rw [waits named,countP_append] at counted
      rw [records]
      by_cases own : named = front.event.session
      · cases kind : front.event.isUnsolicited
        · simpa [own,kind] using counted
        · simp only [own,and_self,↓reduceIte,SessionQueueState.release] at counted ⊢
          rw [counted]
          simp [kind]
      · simpa [own,Ne.symm own] using counted
    · have marks := coherent.marked named
      rw [before] at marks
      rw [keeps.1,keeps.2.1,records]
      by_cases kind : front.event.isTransaction = true ∧ front.event.session = named
      · obtain ⟨first,rest⟩ := marks.tail_marked kind
        have solicited : front.event.isUnsolicited = true := by
          cases event : front.event <;> simp_all [isTransaction,isUnsolicited]
        rw [if_pos ⟨solicited,kind.2.symm⟩]
        simpa [SessionQueueState.release,first] using rest
      · obtain ⟨other,rest⟩ := marks.tail_other kind
        split
        · simpa [SessionQueueState.release,other] using rest
        · exact rest
    · have lines : (after.record named).droppedLines = (inner.record named).droppedLines := by
        rw [records]
        split <;> rfl
      unfold stream
      rw [waits named,← lines]

theorem Coherent.any_waiting (session : SessionId) :
    (inner.waiting session).any isTransaction = (inner.record session).transactionSeq.isSome := by
  cases marked : (inner.record session).transactionSeq with
  | none =>
    have absent := (coherent.marked session).none_iff.mp marked
    simp only [Option.isSome_none,any_eq_false,waiting,mem_filter,mem_map,beq_iff_eq]
    rintro event ⟨⟨queued,member,rfl⟩,own⟩ kind
    exact absent queued member ⟨kind,own⟩
  | some seq =>
    obtain ⟨queued,found,kind,own⟩ := (coherent.marked session seq).mp marked
    simp only [Option.isSome_some,any_eq_true,waiting,mem_filter,mem_map,beq_iff_eq]
    exact ⟨queued.event,⟨⟨queued,Sequenced.item_mem found,rfl⟩,own⟩,kind⟩

theorem Coherent.admit_fold (caps : EventCaps) (possiblyActive : Bool)
    (marked : (inner.record session).transactionSeq = some seq) :
    inner.admitUnsolicited caps (.transactionStateChanged session possiblyActive) =
      (.coalesced,{ inner with queue := inner.queue.modify (seq - inner.frontSeq) (refresh possiblyActive) }) := by
  obtain ⟨queued,found,kind,own⟩ := (coherent.marked session seq).mp marked
  have slot : inner.queuedTransactionSlot session = some (seq - inner.frontSeq) := by
    cases record : inner.sessions session with
    | none => simp [Inner.record,record,SessionQueueState.empty] at marked
    | some state =>
      have here : state.transactionSeq = some seq := by simpa [Inner.record,record] using marked
      have within : inner.frontSeq ≤ seq := by
        by_contra past
        simp [Sequenced.item_past (Nat.lt_of_not_le past)] at found
      simp [queuedTransactionSlot,record,here,within]
  have there : inner.queue[seq - inner.frontSeq]? = some queued := by
    unfold Sequenced.item at found
    split at found
    · exact found
    · cases found
  obtain ⟨active,event⟩ : ∃ active, queued.event = .transactionStateChanged session active := by
    cases event : queued.event <;> simp_all [isTransaction,SessionEvent.session]
  simp only [admitUnsolicited,slot,there,Option.map_some,event]
  rfl

end

theorem admit_first (caps : EventCaps) (possiblyActive : Bool) (free : (inner.record session).transactionSeq = none) :
    inner.admitUnsolicited caps (.transactionStateChanged session possiblyActive) = (.enqueue,inner) := by
  have slot : inner.queuedTransactionSlot session = none := by
    cases record : inner.sessions session with
    | none => simp [queuedTransactionSlot,record]
    | some state =>
      have here : state.transactionSeq = none := by simpa [Inner.record,record] using free
      simp [queuedTransactionSlot,record,here]
  simp only [admitUnsolicited,slot]

end Inner

section
open Reldex.Inner
variable {shared : Shared} (caps : EventCaps) (slot : Option SessionId) (coherent : Coherent shared.inner)
include coherent

theorem push_opened (event : SessionEvent) : (shared.push caps event slot).2.inner = if event.isUnsolicited then
        match shared.inner.admitUnsolicited caps event with
        | (.enqueue,inner) => inner.enqueue event slot
        | (.enqueueWithoutLines,inner) => inner.enqueue event.withoutLines slot
        | (.coalesced,inner) | (.dropped,inner) => inner
      else shared.inner.enqueue event slot := by
  unfold Shared.push
  rw [if_neg (by simp [coherent.opened])]
  dsimp only
  split
  · rcases shared.inner.admitUnsolicited caps event with ⟨admission,inner⟩
    cases admission <;> rfl
  · rfl

private theorem push_transaction (session : SessionId) (possiblyActive : Bool) :
    Coherent (shared.push caps (.transactionStateChanged session possiblyActive) slot).2.inner ∧
    Moves session (·.push caps.maxUnsolicitedPerSession.val (.transactionStateChanged session possiblyActive)) shared.inner
      (shared.push caps (.transactionStateChanged session possiblyActive) slot).2.inner := by
  have waits := coherent.any_waiting session
  cases marked : (shared.inner.record session).transactionSeq with
  | none =>
    obtain ⟨kept,moves⟩ := enqueue_moves (.transactionStateChanged session possiblyActive) slot coherent fun _ => marked
    rw [push_opened caps slot coherent,admit_first caps possiblyActive marked]
    exact ⟨kept,moves.congr fun _ => by simp [accept,Stream.push,stream,SessionEvent.session,waits,marked]⟩
  | some seq =>
    obtain ⟨kept,moves⟩ := fold_transaction coherent possiblyActive marked
    rw [push_opened caps slot coherent,coherent.admit_fold caps possiblyActive marked]
    exact ⟨kept,moves.congr fun _ => by simp [Stream.push,stream,waits,marked]⟩

private theorem push_output (session : SessionId) (lines : List String)
    (dropped : Nat) (failure : Option DbError) (invalidUtf8Lines : Nat) :
    Coherent (shared.push caps (.serverOutput session lines dropped failure invalidUtf8Lines) slot).2.inner ∧
    Moves session
      (·.push caps.maxUnsolicitedPerSession.val (.serverOutput session lines dropped failure invalidUtf8Lines))
      shared.inner (shared.push caps (.serverOutput session lines dropped failure invalidUtf8Lines) slot).2.inner := by
  have counted := coherent.counted session
  have positive := caps.maxUnsolicitedPerSession.property.1
  rw [push_opened caps slot coherent]
  by_cases full : caps.maxUnsolicitedPerSession.val ≤ (shared.inner.waiting session).countP SessionEvent.isUnsolicited
  · obtain ⟨state,found⟩ : ∃ state, shared.inner.sessions session = some state := by
      cases found : shared.inner.sessions session with
      | none =>
        simp only [record,found,Option.getD_none,SessionQueueState.empty] at counted
        omega
      | some state => exact ⟨state,rfl⟩
    have here : shared.inner.record session = state := by simp [record,found]
    rw [← counted,here] at full
    obtain ⟨kept,moves⟩ := setSession_dropped coherent found
      (saturatingAdd32 state.droppedLines (min lines.length u32Max))
    have atCap : ∀ delivered, (shared.inner.stream delivered session).atCap caps.maxUnsolicitedPerSession.val := by
      intro delivered
      simpa [Stream.atCap,stream,← counted,here] using full
    cases failed : failure.isSome with
    | false =>
      simp only [admitUnsolicited,SessionEvent.session,found,ge_iff_le,full,failed,SessionEvent.isUnsolicited,
        ↓reduceIte,Bool.false_eq_true]
      refine ⟨kept,moves.congr fun delivered => ?_⟩
      simp only [Stream.push,atCap delivered,failed,↓reduceIte,Bool.false_eq_true]
      simp only [stream,here]
    | true =>
      simp only [admitUnsolicited,SessionEvent.session,found,ge_iff_le,full,failed,SessionEvent.isUnsolicited,
        ↓reduceIte,SessionEvent.withoutLines]
      obtain ⟨queued,appended⟩ := enqueue_moves (.serverOutput session [] dropped failure invalidUtf8Lines) slot kept (by rintro ⟨⟩)
      refine ⟨queued,(moves.trans appended).congr fun delivered => ?_⟩
      simp only [Function.comp,accept,Stream.push,atCap delivered,failed,↓reduceIte]
      simp only [stream,here,Stream.output]
  · have admitted : shared.inner.admitUnsolicited caps
        (.serverOutput session lines dropped failure invalidUtf8Lines) = (.enqueue,shared.inner) := by
      cases found : shared.inner.sessions session with
      | none => simp only [admitUnsolicited,SessionEvent.session,found]
      | some state =>
        have here : shared.inner.record session = state := by simp [record,found]
        rw [← counted,here] at full
        simp only [admitUnsolicited,SessionEvent.session,found,ge_iff_le,full,↓reduceIte]
    rw [admitted]
    obtain ⟨queued,appended⟩ := enqueue_moves (.serverOutput session lines dropped failure invalidUtf8Lines) slot coherent (by rintro ⟨⟩)
    refine ⟨queued,appended.congr fun delivered => ?_⟩
    have below : ¬ (shared.inner.stream delivered session).atCap caps.maxUnsolicitedPerSession.val := full
    simp [accept,Stream.push,SessionEvent.session,below]

/-- A push moves the stream of its session as the policy says, and no other. -/
theorem push_moves (event : SessionEvent) : Coherent (shared.push caps event slot).2.inner ∧
    Moves event.session (·.push caps.maxUnsolicitedPerSession.val event) shared.inner
      (shared.push caps event slot).2.inner := by
  by_cases plain : event.isUnsolicited = false
  · have free : event.isTransaction = true → (shared.inner.record event.session).transactionSeq = none := by
      cases event <;> simp [SessionEvent.isTransaction,SessionEvent.isUnsolicited] at plain ⊢
    obtain ⟨queued,appended⟩ := enqueue_moves event slot coherent free
    rw [push_opened caps slot coherent,plain]
    exact ⟨queued,appended.congr fun _ => by cases event <;> first | rfl | cases plain⟩
  · cases event with
    | serverOutput session lines dropped failure invalidUtf8Lines =>
      exact push_output caps slot coherent session lines dropped failure invalidUtf8Lines
    | transactionStateChanged session possiblyActive =>
      exact push_transaction caps slot coherent session possiblyActive
    | _ => simp [SessionEvent.isUnsolicited] at plain

end

namespace Traffic
variable (caps : EventCaps)

/-- The records agree with the queue, and every session's stream is what its own pushes and
deliveries make of it. -/
structure Agrees (traffic : Traffic) : Prop where
  coherent : traffic.shared.inner.Coherent
  streams : ∀ session, traffic.stream session =
    Stream.run caps.maxUnsolicitedPerSession.val (traffic.trace.filter (·.session == session))

theorem stream_eq (traffic : Traffic) (session : SessionId) : traffic.stream session = traffic.shared.inner.stream
      ((traffic.trace.filterMap Happening.deliveredEvent).filter (·.session == session)) session := by
  unfold Traffic.stream Inner.stream Shared.pendingDroppedLines Inner.record
  cases traffic.shared.inner.sessions session <;> rfl

theorem start_agrees : Agrees caps start where
  coherent := ⟨rfl,rfl,fun _ => rfl,fun _ => Sequenced.Marks.nil _ _⟩
  streams _ := rfl

theorem run_concat (cap : Nat) (happenings : List Happening) (happening : Happening) :
    Stream.run cap (happenings ++ [happening]) = (Stream.run cap happenings).happens cap happening := by
  simp [Stream.run]

variable {caps}

theorem Agrees.push (agrees : Agrees caps traffic) (event : SessionEvent)
    (slot : Option SessionId) : Agrees caps (traffic.step caps (.push event slot)) := by
  obtain ⟨coherent,moves⟩ := push_moves caps slot agrees.coherent event
  refine ⟨coherent,fun session => ?_⟩
  have before := (stream_eq traffic session).symm.trans (agrees.streams session)
  rw [stream_eq]
  simp only [step,filterMap_append,filterMap_cons,filterMap_nil,Happening.deliveredEvent,
    append_nil,filter_append,filter_cons,filter_nil,Happening.session_pushed]
  rw [moves]
  by_cases own : event.session = session
  · simp only [own,↓reduceIte,beq_self_eq_true,run_concat,Stream.happens,before]
  · simp only [own,↓reduceIte,beq_iff_eq,append_nil,before]

theorem Agrees.pop (agrees : Agrees caps traffic) : Agrees caps (traffic.step caps .pop) := by
  cases popped : traffic.shared.inner.pop with
  | none => simpa only [step,popped] using agrees
  | some pair =>
    obtain ⟨queued,inner⟩ := pair
    obtain ⟨coherent,streams⟩ := agrees.coherent.pop popped
    simp only [step,popped]
    refine ⟨coherent,fun session => ?_⟩
    have before := (stream_eq traffic session).symm.trans (agrees.streams session)
    rw [stream_eq]
    simp only [filterMap_append,filterMap_cons,filterMap_nil,Happening.deliveredEvent,
      filter_append,filter_cons,filter_nil,Happening.session_delivered]
    rw [streams] at before
    by_cases own : queued.event.session = session
    · simp only [own,↓reduceIte,beq_self_eq_true,run_concat,Stream.happens,← before]
      rfl
    · simp only [own,↓reduceIte,beq_iff_eq,append_nil,← before]
      rfl

theorem run_agrees (caps : EventCaps) (ops : List QueueOp) : Agrees caps (run caps ops) := by
  induction ops using List.reverseRecOn with
  | nil => exact start_agrees caps
  | append_singleton earlier op ih =>
    rw [run,foldl_append]
    cases op with
    | push event slot => exact ih.push event slot
    | pop => exact ih.pop

end Traffic
end Reldex
