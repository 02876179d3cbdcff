import Reldex.SessionEvents
import Reldex.StoreCaps

/-! Every open result of one session, and the events that end them. Transaction ends in
progress are counted by the session and by each store; a store that was ended is never
fetched into again, however the run goes on. -/
namespace Reldex
open List Option
variable {r : SessionResults} {stores : List ResultStore}

/-- The commands whose success ends the transaction. -/
def CompletedOperation.endsTransaction : CompletedOperation → Bool
  | .commit | .rollback | .rollbackToSavepoint => true
  | _ => false

namespace ResultStore
variable (growth : VecGrowth)

/-- What a call does to the number of transaction ends a store waits for. -/
def StoreEvent.pending : StoreEvent → Nat → Nat
  | .transactionEndSubmitted, n => n + 1
  | .transactionEndAnswered _, n => n - 1
  | _, n => n

variable (s : ResultStore)

theorem settle_fixed :
    (s.settle growth).result = s.result ∧ (s.settle growth).transactionEndsPending = s.transactionEndsPending := by
  unfold settle
  split
  · split <;> exact ⟨rfl,rfl⟩
  · exact ⟨rfl,rfl⟩

theorem onFetched_fixed (ticket : FetchTicket) (reply : Except DbError SegmentReply) :
    (s.onFetched growth ticket reply).1.result = s.result ∧
      (s.onFetched growth ticket reply).1.transactionEndsPending = s.transactionEndsPending := by
  unfold onFetched
  split
  · exact ⟨rfl,rfl⟩
  split
  · unfold refuse
    dsimp only
    split <;> exact ⟨rfl,rfl⟩
  dsimp only
  split
  · exact ⟨rfl,rfl⟩
  split
  · exact ⟨rfl,rfl⟩
  split
  · exact ⟨rfl,rfl⟩
  · exact settle_fixed growth _

theorem fetchMore_fixed (more : FetchMore) : (s.fetchMore growth more).1.result = s.result ∧
      (s.fetchMore growth more).1.transactionEndsPending = s.transactionEndsPending := by
  unfold fetchMore
  split
  · exact ⟨rfl,rfl⟩
  · exact settle_fixed growth _

theorem step_fixed (event : StoreEvent) : (s.step growth event).result = s.result ∧
      (s.step growth event).transactionEndsPending = event.pending s.transactionEndsPending := by
  cases event with
  | submitted =>
    unfold step
    cases s.due growth with
    | none => exact ⟨rfl,rfl⟩
    | some action => cases action <;> exact ⟨rfl,rfl⟩
  | fetched ticket reply => exact s.onFetched_fixed growth ticket reply
  | fetchMore more => exact s.fetchMore_fixed growth more
  | transactionEndAnswered succeeded => cases succeeded <;> exact ⟨rfl,rfl⟩
  | statementExecuted outcome =>
    change (if outcome.endsTransaction then s.endTransaction else s).result = _ ∧
      (if outcome.endsTransaction then s.endTransaction else s).transactionEndsPending = _
    split <;> exact ⟨rfl,rfl⟩
  | _ => exact ⟨rfl,rfl⟩

theorem submitted_fixed (n : Nat) : (s.run growth (List.replicate n .submitted)).result = s.result ∧
      (s.run growth (List.replicate n .submitted)).transactionEndsPending = s.transactionEndsPending := by
  induction n generalizing s with
  | zero => exact ⟨rfl,rfl⟩
  | succ n ih =>
    have first := s.step_fixed growth .submitted
    have rest := ih (s.step growth .submitted)
    exact ⟨rest.1.trans first.1,rest.2.trans first.2⟩

variable (submit : Nat → StoreAction → Except DbError Unit) (calls : Nat)

theorem pump_fixed : (s.pump growth submit calls).store.result = s.result ∧
      (s.pump growth submit calls).store.transactionEndsPending = s.transactionEndsPending := by
  obtain ⟨n,store⟩ := (pumpLoop_run growth submit (s.pumpBound + 1) calls s).1
  rw [pump,store]
  exact s.submitted_fixed growth n

/-- A store that was ended with its transaction or session: it stays that way. -/
structure Finished (s : ResultStore) : Prop where
  inactive : s.phase.isActive = false
  closed : s.cursorClosed = true
  lobs : ∃ reason, s.lobs = some reason

theorem endTransaction_finished : Finished s.endTransaction := by
  refine ⟨?_,rfl,⟨_,rfl⟩⟩
  simp only [endTransaction,loseLobs]
  cases s.phase with
  | atLimit limit more => cases !s.cursorClosed && !s.closeDue <;> rfl
  | _ => rfl

theorem sessionEnded_finished : Finished s.sessionEnded := by
  refine ⟨?_,rfl,⟨_,rfl⟩⟩
  simp only [sessionEnded,loseLobs]
  cases s.phase <;> rfl

variable {s : ResultStore} {growth : VecGrowth} (finished : Finished s)
include finished

theorem Finished.serves : (∀ request, s.due growth ≠ some (.fetch request)) ∧
    (∀ row column handle, s.value row column ≠ some (.lob handle)) ∧
    ∀ row column handle, s.lob row column ≠ some (.readable handle) := by
  obtain ⟨reason,lost⟩ := finished.lobs
  refine ⟨?_,?_,?_⟩
  · intro request due
    have active := (due_fetch_iff.mp due).active
    have inactive := finished.inactive
    rw [active] at inactive
    cases inactive
  · intro row column handle read
    simp only [value,Option.bind_eq_bind,Option.bind_eq_some_iff,Option.pure_def,Option.some.injEq,lost] at read
    obtain ⟨_,_,cell,_,served⟩ := read
    cases cell <;> simp [ResultStore.served] at served
  · intro row column handle read
    simp only [lob,bind_eq_bind,bind_eq_some_iff,lost] at read
    obtain ⟨_,_,data,_,read⟩ := read
    split at read
    · split at read
      · cases read
      · obtain ⟨cell,_,read⟩ := bind_eq_some_iff.mp read
        cases cell <;> cases read
    · cases read

theorem Finished.step (event : StoreEvent) : Finished (s.step growth event) := by
  obtain ⟨inactive,closed,reason,lost⟩ := finished
  cases event with
  | submitted =>
    unfold ResultStore.step
    cases due : s.due growth with
    | none => exact ⟨inactive,closed,reason,lost⟩
    | some action =>
      cases action with
      | fetch request =>
        have active := (due_fetch_iff.mp due).active
        simp [active,Phase.isActive] at inactive
      | closeResult result => exact ⟨inactive,rfl,⟨_,rfl⟩⟩
  | fetched ticket reply =>
    change Finished (s.onFetched growth ticket reply).1
    unfold onFetched
    split
    · exact ⟨inactive,closed,reason,lost⟩
    split
    · unfold refuse
      dsimp only
      split
      · exact ⟨rfl,closed,reason,lost⟩
      · exact ⟨inactive,closed,reason,lost⟩
    · dsimp only
      rw [if_pos (by simp [inactive])]
      exact ⟨inactive,closed,reason,lost⟩
  | fetchMore more =>
    change Finished (s.fetchMore growth more).1
    unfold ResultStore.fetchMore
    rw [if_pos (by simp [closed])]
    exact ⟨inactive,closed,reason,lost⟩
  | discard => exact ⟨rfl,rfl,⟨_,rfl⟩⟩
  | transactionEndAnswered succeeded =>
    cases succeeded with
    | false => exact ⟨inactive,closed,reason,lost⟩
    | true => exact endTransaction_finished _
  | statementExecuted outcome =>
    change Finished (if outcome.endsTransaction then s.endTransaction else s)
    split
    · exact s.endTransaction_finished
    · exact ⟨inactive,closed,reason,lost⟩
  | sessionEnded => exact s.sessionEnded_finished
  | _ => exact ⟨inactive,closed,reason,lost⟩

theorem Finished.pump : Finished (s.pump growth submit calls).store := by
  obtain ⟨n,store⟩ := (pumpLoop_run growth submit (s.pumpBound + 1) calls s).1
  rw [ResultStore.pump,store]
  clear store
  induction n generalizing s with
  | zero => exact finished
  | succ n ih => exact ih (finished.step .submitted)

end ResultStore

structure SessionResults where
  session : SessionId
  stores : List ResultStore
  transactionEndsPending : Nat

namespace SessionResults
open ResultStore (StoreEvent)

def new (session : SessionId) : SessionResults := ⟨session,[],0⟩

/-- `open`. The new store waits for every transaction end already submitted, and takes
the place of one for the same result. -/
def openStore (r : SessionResults) (outcome : ExecuteOutcome) (policy : ResultPolicy) : SessionResults :=
  match outcome.result with
  | none => r
  | some result =>
    if result.session ≠ r.session then r
    else
      let store := ResultStore.transactionEndSubmitted^[r.transactionEndsPending]
        (.new result outcome.columns policy)
      { r with stores := r.stores.filter (·.result != result) ++ [store] }

/-- Changes the first store of a result, as through `get_mut`. -/
def updateStore (result : ResultId) (change : ResultStore → ResultStore) : List ResultStore → List ResultStore
  | [] => []
  | store :: stores =>
    if store.result = result then change store :: stores else store :: updateStore result change stores

def remove (r : SessionResults) (result : ResultId) : SessionResults :=
  { r with stores := r.stores.eraseP (·.result == result) }

def transactionEndSubmitted (r : SessionResults) : SessionResults :=
  { r with
    transactionEndsPending := r.transactionEndsPending + 1
    stores := r.stores.map ResultStore.transactionEndSubmitted }

section
variable (growth : VecGrowth)

def observe (r : SessionResults) (event : SessionEvent) : SessionResults :=
  if event.session ≠ r.session then r
  else match event with
    | .fetchedSegment _ _ fetch segment =>
      { r with stores := updateStore fetch.result (fun s => (s.onFetched growth fetch segment).1) r.stores }
    | .executed _ _ (.ok outcome) => { r with stores := r.stores.map (·.statementExecuted outcome) }
    | .completed _ _ operation result =>
      if operation.endsTransaction then
        { r with
          transactionEndsPending := r.transactionEndsPending - 1
          stores := r.stores.map (·.transactionEndAnswered result.isOk) }
      else r
    | .terminal _ _ _ _ => { r with stores := r.stores.map ResultStore.sessionEnded }
    | _ => r

structure Pumped where
  stores : List ResultStore
  handed : List StoreAction

/-- Pumps the stores in the order they were opened, up to the first refusal. -/
def pumpStores (submit : Nat → StoreAction → Except DbError Unit) : Nat → List ResultStore → Pumped
  | _, [] => ⟨[],[]⟩
  | calls, store :: stores =>
    let pumped := store.pump growth submit calls
    match pumped.refusal with
    | some _ => ⟨pumped.store :: stores,pumped.handed⟩
    | none =>
      let rest := pumpStores submit (calls + pumped.handed.length) stores
      ⟨pumped.store :: rest.stores,pumped.handed ++ rest.handed⟩

def pump (r : SessionResults) (submit : Nat → StoreAction → Except DbError Unit) : Pumped :=
  pumpStores growth submit 0 r.stores

end

inductive ViewRequest where
  | setDemand (rows : Nat)
  | fetchAll | stop | resume
  | fetchMore (more : FetchMore)
  | discard

def ViewRequest.event : ViewRequest → StoreEvent
  | .setDemand rows => .setDemand rows
  | .fetchAll => .fetchAll
  | .stop => .stop
  | .resume => .resume
  | .fetchMore more => .fetchMore more
  | .discard => .discard

inductive SessionOp where
  | openStore (outcome : ExecuteOutcome) (policy : ResultPolicy)
  | remove (result : ResultId)
  | transactionEndSubmitted
  | observe (event : SessionEvent)
  | pump (submit : Nat → StoreAction → Except DbError Unit)
  | view (result : ResultId) (request : ViewRequest)

variable (growth : VecGrowth)

def step (r : SessionResults) : SessionOp → SessionResults
  | .openStore outcome policy => r.openStore outcome policy
  | .remove result => r.remove result
  | .transactionEndSubmitted => r.transactionEndSubmitted
  | .observe event => r.observe growth event
  | .pump submit => { r with stores := (r.pump growth submit).stores }
  | .view result request => { r with stores := updateStore result (·.step growth request.event) r.stores }

def run (r : SessionResults) (ops : List SessionOp) : SessionResults := ops.foldl (step growth) r

def Ends (r : SessionResults) (event : SessionEvent) : Prop :=
  event.session = r.session ∧ match event with
    | .executed _ _ (.ok outcome) => outcome.committedImplicitly = true ∨ outcome.statementKind = .transactionControl
    | .completed _ _ operation (.ok _) =>
      operation = .commit ∨ operation = .rollback ∨ operation = .rollbackToSavepoint
    | .terminal _ _ _ _ => True
    | _ => False

def Counted (r : SessionResults) : Prop :=
  ∀ store ∈ r.stores, store.transactionEndsPending = r.transactionEndsPending

theorem new_counted (session : SessionId) : Counted (new session) := by simp [Counted,new]

theorem mem_updateStore (member : store ∈ updateStore result change stores) :
    store ∈ stores ∨ ∃ before ∈ stores, store = change before := by
  induction stores with
  | nil => cases member
  | cons first stores ih =>
    unfold updateStore at member
    split at member
    · obtain rfl | member := mem_cons.mp member
      · exact .inr ⟨first,by simp,rfl⟩
      · exact .inl (by simp [member])
    · obtain rfl | member := mem_cons.mp member
      · exact .inl (by simp)
      · obtain same | ⟨before,known,changed⟩ := ih member
        · exact .inl (by simp [same])
        · exact .inr ⟨before,by simp [known],changed⟩

theorem mem_pumpStores (member : store ∈ (pumpStores growth submit calls stores).stores) :
    store ∈ stores ∨ ∃ before ∈ stores, ∃ n, store = (before.pump growth submit n).store := by
  induction stores generalizing calls with
  | nil => cases member
  | cons first stores ih =>
    unfold pumpStores at member
    dsimp only at member
    split at member
    · obtain rfl | member := mem_cons.mp member
      · exact .inr ⟨first,by simp,calls,rfl⟩
      · exact .inl (by simp [member])
    · obtain rfl | member := mem_cons.mp member
      · exact .inr ⟨first,by simp,calls,rfl⟩
      · obtain same | ⟨before,known,changed⟩ := ih member
        · exact .inl (by simp [same])
        · exact .inr ⟨before,by simp [known],changed⟩

theorem handed_pumpStores (member : action ∈ (pumpStores growth submit calls stores).handed) :
    ∃ store ∈ stores, ∃ n, action ∈ (store.pump growth submit n).handed := by
  induction stores generalizing calls with
  | nil => cases member
  | cons first stores ih =>
    unfold pumpStores at member
    dsimp only at member
    split at member
    · exact ⟨first,by simp,calls,member⟩
    · obtain member | member := mem_append.mp member
      · exact ⟨first,by simp,calls,member⟩
      · obtain ⟨store,known,n,handed⟩ := ih member
        exact ⟨store,by simp [known],n,handed⟩

theorem waiting_iterate (pending : Nat) (store : ResultStore) :
    (ResultStore.transactionEndSubmitted^[pending] store).transactionEndsPending =
        store.transactionEndsPending + pending ∧
      (ResultStore.transactionEndSubmitted^[pending] store).result = store.result := by
  induction pending generalizing store with
  | zero => exact ⟨rfl,rfl⟩
  | succ pending ih =>
    obtain ⟨count,result⟩ := ih store.transactionEndSubmitted
    rw [Function.iterate_succ_apply]
    refine ⟨?_,result⟩
    rw [count]
    simp only [ResultStore.transactionEndSubmitted]
    omega

theorem mem_openStore (member : store ∈ (r.openStore outcome policy).stores) :
    store ∈ r.stores ∨ outcome.result = some store.result ∧
      store.transactionEndsPending = r.transactionEndsPending := by
  unfold openStore at member
  split at member
  · exact .inl member
  rename_i result found
  split at member
  · exact .inl member
  · obtain kept | fresh := mem_append.mp member
    · exact .inl (mem_filter.mp kept).1
    · obtain rfl := mem_singleton.mp fresh
      obtain ⟨count,same⟩ := waiting_iterate r.transactionEndsPending (.new result outcome.columns policy)
      refine .inr ⟨found.trans (congrArg some same.symm),count.trans (Nat.zero_add _)⟩

theorem openStore_pending (r : SessionResults) (outcome : ExecuteOutcome) (policy : ResultPolicy) :
    (r.openStore outcome policy).transactionEndsPending = r.transactionEndsPending := by
  unfold openStore
  split
  · rfl
  · split <;> rfl

section
variable (counted : Counted r)
include counted

theorem Counted.observe (event : SessionEvent) : Counted (r.observe growth event) := by
  unfold SessionResults.observe
  split
  · exact counted
  split
  · intro store member
    obtain same | ⟨before,known,rfl⟩ := mem_updateStore member
    · exact counted store same
    · exact (before.onFetched_fixed growth ..).2.trans (counted before known)
  · intro store member
    obtain ⟨before,known,rfl⟩ := mem_map.mp member
    exact (before.step_fixed growth (.statementExecuted _)).2.trans (counted before known)
  · split
    · intro store member
      obtain ⟨before,known,rfl⟩ := mem_map.mp member
      exact (before.step_fixed growth (.transactionEndAnswered _)).2.trans (congrArg (· - 1) (counted before known))
    · exact counted
  · intro store member
    obtain ⟨before,known,rfl⟩ := mem_map.mp member
    exact counted before known
  · exact counted

theorem Counted.step (op : SessionOp) : Counted (r.step growth op) := by
  cases op with
  | openStore outcome policy =>
    intro store member
    change _ = (r.openStore outcome policy).transactionEndsPending
    rw [openStore_pending]
    obtain same | ⟨_,count⟩ := mem_openStore member
    · exact counted store same
    · exact count
  | remove result => exact fun store member => counted store (mem_of_mem_eraseP member)
  | transactionEndSubmitted =>
    intro store member
    obtain ⟨before,known,rfl⟩ := mem_map.mp member
    exact congrArg (· + 1) (counted before known)
  | observe event => exact counted.observe growth event
  | pump submit =>
    intro store member
    obtain same | ⟨before,known,n,rfl⟩ := mem_pumpStores growth member
    · exact counted store same
    · exact (before.pump_fixed growth submit n).2.trans (counted before known)
  | view result request =>
    intro store member
    obtain same | ⟨before,known,rfl⟩ := mem_updateStore member
    · exact counted store same
    · have same : request.event.pending before.transactionEndsPending = before.transactionEndsPending := by
        cases request <;> rfl
      exact ((before.step_fixed growth request.event).2.trans same).trans (counted before known)

theorem Counted.run (ops : List SessionOp) : Counted (r.run growth ops) := by
  induction ops generalizing r with
  | nil => exact counted
  | cons op ops ih => exact ih (counted.step growth op)

theorem pump_waits (pending : 0 < r.transactionEndsPending)
    (submit : Nat → StoreAction → Except DbError Unit) :
    ∀ action ∈ (r.pump growth submit).handed, action.isFetch = false := by
  intro action member
  obtain ⟨store,known,calls,handed⟩ := handed_pumpStores growth member
  obtain ⟨n,due⟩ := (ResultStore.pumpLoop_run growth submit _ calls store).2 action handed
  cases action with
  | closeResult => rfl
  | fetch request =>
    have settled := (ResultStore.due_fetch_iff.mp due).settled
    rw [(store.submitted_fixed growth n).2,counted store known] at settled
    omega

end

def Opens (ops : List SessionOp) (result : ResultId) : Prop :=
  ∃ outcome policy, .openStore outcome policy ∈ ops ∧ outcome.result = some result

def EndedExcept (opened : ResultId → Prop) (r : SessionResults) : Prop :=
  ∀ store ∈ r.stores, ¬opened store.result → store.Finished

theorem Ends.finishes (ends : r.Ends event) : ∀ store ∈ (r.observe growth event).stores, store.Finished := by
  obtain ⟨same,kind⟩ := ends
  unfold SessionResults.observe
  rw [if_neg (not_not_intro same)]
  split at kind
  · rename_i outcome
    intro store member
    obtain ⟨before,_,rfl⟩ := mem_map.mp member
    have ending : outcome.endsTransaction = true := by
      simpa [ExecuteOutcome.endsTransaction] using kind
    rw [ResultStore.statementExecuted,if_pos ending]
    exact before.endTransaction_finished
  · rename_i operation _
    have ending : operation.endsTransaction = true := by
      obtain rfl | rfl | rfl := kind <;> rfl
    intro store member
    simp only [ending,if_true] at member
    obtain ⟨before,_,rfl⟩ := mem_map.mp member
    exact ResultStore.endTransaction_finished _
  · intro store member
    obtain ⟨before,_,rfl⟩ := mem_map.mp member
    exact before.sessionEnded_finished
  · exact kind.elim

def Follows (stores : List ResultStore) (store : ResultStore) : Prop :=
  ∃ before ∈ stores, store.result = before.result ∧ (before.Finished → store.Finished)

theorem Follows.same (member : store ∈ stores) : Follows stores store :=
  ⟨store,member,rfl,id⟩

theorem Follows.call (member : before ∈ stores) (event : StoreEvent) : Follows stores (before.step growth event) :=
  ⟨before,member,(before.step_fixed growth event).1,fun finished => finished.step event⟩

theorem observe_follows (member : store ∈ (r.observe growth event).stores) : Follows r.stores store := by
  unfold SessionResults.observe at member
  split at member
  · exact .same member
  split at member
  · obtain same | ⟨before,known,rfl⟩ := mem_updateStore member
    · exact .same same
    · exact .call growth known (.fetched _ _)
  · obtain ⟨before,known,rfl⟩ := mem_map.mp member
    exact .call growth known (.statementExecuted _)
  · split at member
    · obtain ⟨before,known,rfl⟩ := mem_map.mp member
      exact .call growth known (.transactionEndAnswered _)
    · exact .same member
  · obtain ⟨before,known,rfl⟩ := mem_map.mp member
    exact .call growth known .sessionEnded
  · exact .same member

theorem step_stores {store : ResultStore} (member : store ∈ (r.step growth op).stores) :
    (∃ outcome policy, op = .openStore outcome policy ∧ outcome.result = some store.result) ∨
      Follows r.stores store := by
  cases op with
  | openStore outcome policy =>
    obtain same | ⟨result,_⟩ := mem_openStore member
    · exact .inr (.same same)
    · exact .inl ⟨outcome,policy,rfl,result⟩
  | remove result => exact .inr (.same (mem_of_mem_eraseP member))
  | transactionEndSubmitted =>
    obtain ⟨before,known,rfl⟩ := mem_map.mp member
    exact .inr (.call growth known .transactionEndSubmitted)
  | observe event => exact .inr (observe_follows growth member)
  | pump submit =>
    obtain same | ⟨before,known,n,rfl⟩ := mem_pumpStores growth member
    · exact .inr (.same same)
    · exact .inr ⟨before,known,(before.pump_fixed growth submit n).1,fun finished => finished.pump submit n⟩
  | view result request =>
    obtain same | ⟨before,known,rfl⟩ := mem_updateStore member
    · exact .inr (.same same)
    · exact .inr (.call growth known request.event)

theorem EndedExcept.step {opened : ResultId → Prop} (ended : EndedExcept opened r)
    (op : SessionOp) : EndedExcept (fun result => opened result ∨ Opens [op] result) (r.step growth op) := by
  intro store member other
  obtain ⟨outcome,policy,rfl,result⟩ | ⟨before,known,same,kept⟩ := step_stores growth member
  · exact absurd (.inr ⟨outcome,policy,by simp,result⟩) other
  · exact kept (ended before known fun earlier => other (.inl (same ▸ earlier)))

theorem EndedExcept.run (ended : EndedExcept opened r)
    (ops : List SessionOp) : EndedExcept (fun result => opened result ∨ Opens ops result) (r.run growth ops) := by
  induction ops generalizing r opened with
  | nil => exact fun store member other => ended store member fun earlier => other (.inl earlier)
  | cons op ops ih =>
    intro store member other
    refine ih (ended.step growth op) store member ?_
    rintro ((earlier | ⟨outcome,policy,first,result⟩) | ⟨outcome,policy,later,result⟩)
    · exact other (.inl earlier)
    · exact other (.inr ⟨outcome,policy,by simp_all,result⟩)
    · exact other (.inr ⟨outcome,policy,by simp [later],result⟩)

/-- Over every run each open store waits for the session's transaction ends, and while
there are any no fetch is handed out. After an event that ended the transaction or the
session, no store that was open then has a fetch due or serves a large object again. -/
theorem transaction_ends_reach_every_store (session : SessionId) (ops later : List SessionOp) (event : SessionEvent) :
    let r := (new session).run growth ops
    let after := (r.observe growth event).run growth later
    (∀ store ∈ r.stores, store.transactionEndsPending = r.transactionEndsPending) ∧
    (0 < r.transactionEndsPending → ∀ submit, ∀ action ∈ (r.pump growth submit).handed, action.isFetch = false) ∧
    (r.Ends event → ∀ store ∈ after.stores, ¬Opens later store.result →
      (∀ request, store.due growth ≠ some (.fetch request)) ∧
      (∀ row column handle, store.value row column ≠ some (.lob handle)) ∧
      ∀ row column handle, store.lob row column ≠ some (.readable handle)) := by
  intro r after
  have counted : Counted r := (new_counted session).run growth ops
  refine ⟨counted,pump_waits growth counted,?_⟩
  intro ends store member fresh
  have ended : EndedExcept (fun _ => False) (r.observe growth event) :=
    fun store member _ => ends.finishes growth store member
  exact (ended.run growth later store member (by simpa using fresh)).serves

end SessionResults
end Reldex
