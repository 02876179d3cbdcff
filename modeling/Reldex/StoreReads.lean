import Reldex.ResultStore

/-! Runs of a result store, and what its readers see. Rows are only ever added behind
those already there, the row limit only rises and large objects are lost once, so a
cell that was read keeps its value. -/
namespace Reldex.ResultStore
open Option List Nat

/-- One call of a store's interface. `submitted` is one turn of `pump` whose action was
accepted; a refused action changes nothing. -/
inductive StoreEvent where
  | submitted
  | fetched (ticket : FetchTicket) (reply : Except DbError SegmentReply)
  | setDemand (rows : Nat)
  | fetchAll
  | stop
  | resume
  | fetchMore (more : FetchMore)
  | discard
  | transactionEndSubmitted
  | transactionEndAnswered (succeeded : Bool)
  | statementExecuted (outcome : ExecuteOutcome)
  | sessionEnded

section
variable (growth : VecGrowth)

def step (s : ResultStore) : StoreEvent → ResultStore
  | .submitted => (s.due growth).elim s s.record
  | .fetched ticket reply => (s.onFetched growth ticket reply).1
  | .setDemand rows => { s with demand := rows }
  | .fetchAll => { s with fetchAll := true, stopped := false }
  | .stop => { s with stopped := true, fetchAll := false }
  | .resume => { s with stopped := false }
  | .fetchMore more => (s.fetchMore growth more).1
  | .discard => s.discard
  | .transactionEndSubmitted => s.transactionEndSubmitted
  | .transactionEndAnswered succeeded => s.transactionEndAnswered succeeded
  | .statementExecuted outcome => s.statementExecuted outcome
  | .sessionEnded => s.sessionEnded

def run (s : ResultStore) (events : List StoreEvent) : ResultStore := events.foldl (step growth) s

/-- What one call of `pump` did: the store after it, the actions handed out in order,
and the error of the submit that stopped it. -/
structure Pumped where
  store : ResultStore
  handed : List StoreAction
  refusal : Option DbError

/-- The loop of `pump`; `submit` answers call number `calls`. -/
def pumpLoop (submit : Nat → StoreAction → Except DbError Unit) : Nat → Nat → ResultStore → Pumped
  | 0, _, s => ⟨s,[],none⟩
  | fuel + 1, calls, s =>
    match s.due growth with
    | none => ⟨s,[],none⟩
    | some action =>
      match submit calls action with
      | .error error => ⟨s,[action],some error⟩
      | .ok () =>
        let rest := pumpLoop submit fuel (calls + 1) (s.record action)
        { rest with handed := action :: rest.handed }

/-- Every turn submits the close that is due or fills a place among the fetches. -/
def pumpBound (s : ResultStore) : Nat :=
  (if s.closeDue then 1 else 0) + (s.policy.fetchesInFlight - s.inFlight.length)

/-- `pump`, when `submit` has been called `calls` times before. -/
def pump (s : ResultStore) (submit : Nat → StoreAction → Except DbError Unit) (calls : Nat) : Pumped :=
  pumpLoop growth submit (s.pumpBound + 1) calls s

theorem step_submitted {s : ResultStore} (due : s.due growth = some action) :
    s.step growth .submitted = s.record action := by
  rw [step,due,elim_some]

/-- A pump is a run of accepted submits, and hands out only what is due along it. -/
theorem pumpLoop_run (submit : Nat → StoreAction → Except DbError Unit) (fuel calls : Nat) (s : ResultStore) :
    (∃ n, (pumpLoop growth submit fuel calls s).store = s.run growth (replicate n .submitted)) ∧
      ∀ action ∈ (pumpLoop growth submit fuel calls s).handed,
        ∃ n, (s.run growth (replicate n .submitted)).due growth = some action := by
  induction fuel generalizing calls s with
  | zero => exact ⟨⟨0,rfl⟩,nofun⟩
  | succ fuel ih =>
    unfold pumpLoop
    split
    · exact ⟨⟨0,rfl⟩,nofun⟩
    rename_i action due
    split
    · exact ⟨⟨0,rfl⟩,fun other handed => ⟨0,mem_singleton.mp handed ▸ due⟩⟩
    · obtain ⟨⟨n,store⟩,handed⟩ := ih (calls + 1) (s.record action)
      rw [← step_submitted growth due] at store handed ⊢
      refine ⟨⟨n + 1,store⟩,?_⟩
      intro other member
      obtain rfl | member := mem_cons.mp member
      · exact ⟨0,due⟩
      · obtain ⟨m,later⟩ := handed other member
        exact ⟨m + 1,later⟩

/-- The fields that only replies and raised caps change. The reason large objects were
lost is never replaced. -/
structure Kept (s next : ResultStore) : Prop where
  retained : next.toRetained = s.toRetained
  caps : next.caps = s.caps
  policy : next.policy = s.policy
  declaredWidth : next.declaredWidth = s.declaredWidth
  exhausted : next.exhausted = s.exhausted
  lobs : ∀ reason, s.lobs = some reason → next.lobs = some reason

def isOver (s : ResultStore) : Bool :=
  match s.phase with
  | .failed _ _ | .ended _ => true
  | _ => false

inductive Change (s : ResultStore) : StoreEvent → ResultStore → Prop where
  | kept {next : ResultStore} (keeps : Kept s next) (outstanding : next.toOutstanding = s.toOutstanding)
      (phase : next.phase = s.phase ∧ (next.closeDue = true → s.closeDue = true) ∨
        next.isOver = true) : Change s event next
  | recorded (request : FetchRequest) (due : s.due growth = some (.fetch request)) :
      Change s .submitted (s.record (.fetch request))
  | dropped {next : ResultStore} (keeps : Kept s next)
      (outstanding : next.toOutstanding = s.toOutstanding.remove ticket.sequence ∨
        next.toOutstanding = s.toOutstanding.popFront)
      (phase : next.isOver = true ∨ next.phase = s.phase ∧ s.phase.isActive = false) :
      Change s (.fetched ticket reply) next
  | taken (reply : SegmentReply) (front : s.inFlight.head?.map InFlight.sequence = some ticket.sequence)
      (active : s.phase = .active) :
      Change s (.fetched ticket (.ok reply))
        (({ s with toOutstanding := s.toOutstanding.popFront }.take reply).settle growth)
  | raised (caps : ResultCaps)
      (higher : caps = s.caps.raisedBy s.policy.caps ∨ caps = s.caps.lifted)
      (limit : s.phase.isAtLimit = true) (undue : s.closeDue = false) :
      Change s (.fetchMore more) ({ s with caps := caps, phase := .active, stopped := false }.settle growth)

variable (s : ResultStore)

theorem Kept.refl : Kept s s := ⟨rfl,rfl,rfl,rfl,rfl,fun _ lost => lost⟩

theorem loseLobs_kept (phase : Phase) (closeDue cursorClosed : Bool) (reason : LobUnavailable) :
    Kept s ({ s with phase := phase, closeDue := closeDue, cursorClosed := cursorClosed }.loseLobs reason) :=
  ⟨rfl,rfl,rfl,rfl,rfl,fun _ lost => by simp [loseLobs,lost]⟩

theorem endTransaction_change (pending : Nat) (event : StoreEvent) :
    s.Change growth event { s with transactionEndsPending := pending }.endTransaction := by
  refine .kept ⟨rfl,rfl,rfl,rfl,rfl,fun _ lost => by simp [endTransaction,loseLobs,lost]⟩ rfl ?_
  simp only [endTransaction,loseLobs]
  cases s.phase with
  | atLimit limit more => cases !s.cursorClosed && !s.closeDue <;> simp [isOver]
  | _ => simp [isOver]

theorem sessionEnded_change : s.Change growth .sessionEnded s.sessionEnded := by
  refine .kept (loseLobs_kept s ..) rfl ?_
  simp only [sessionEnded,loseLobs]
  cases s.phase <;> simp [isOver,Phase.isActive,Phase.isAtLimit]

theorem submitted_change : s.Change growth .submitted (s.step growth .submitted) := by
  unfold step
  cases due : s.due growth with
  | none => exact .kept (.refl s) rfl (.inl ⟨rfl,id⟩)
  | some action =>
    cases action with
    | fetch request => exact .recorded request due
    | closeResult result => exact .kept (loseLobs_kept s ..) rfl (.inl ⟨rfl,nofun⟩)

variable (ticket : FetchTicket) (reply : Except DbError SegmentReply)

theorem refuse_change : s.Change growth (.fetched ticket reply) (s.refuse ticket) := by
  unfold refuse
  dsimp only
  split
  · exact .dropped ⟨rfl,rfl,rfl,rfl,rfl,fun _ lost => lost⟩ (.inl rfl) (.inl rfl)
  · rename_i moving
    simp only [Bool.or_eq_true,not_or,Bool.not_eq_true] at moving
    exact .dropped ⟨rfl,rfl,rfl,rfl,rfl,fun _ lost => lost⟩ (.inl rfl) (.inr ⟨rfl,moving.1⟩)

theorem fetched_change : s.Change growth (.fetched ticket reply) (s.onFetched growth ticket reply).1 := by
  unfold onFetched
  split
  · exact .kept (.refl s) rfl (.inl ⟨rfl,id⟩)
  split
  · exact refuse_change growth s ticket reply
  rename_i front
  rw [not_not] at front
  dsimp only
  split
  · rename_i inactive
    exact .dropped ⟨rfl,rfl,rfl,rfl,rfl,fun _ lost => lost⟩ (.inr rfl) (.inr ⟨rfl,by simpa using inactive⟩)
  rename_i active
  split
  · rename_i error
    exact .dropped ⟨rfl,rfl,rfl,rfl,rfl,fun _ lost => by simp [failFetch,loseLobs,lost]⟩ (.inr rfl) (.inl rfl)
  rename_i reply
  split
  · exact .dropped ⟨rfl,rfl,rfl,rfl,rfl,fun _ lost => lost⟩ (.inr rfl) (.inl rfl)
  · exact .taken reply front (by simpa using active)

theorem fetchMore_change (more : FetchMore) : s.Change growth (.fetchMore more) (s.fetchMore growth more).1 := by
  unfold fetchMore
  split
  · exact .kept (.refl s) rfl (.inl ⟨rfl,id⟩)
  rename_i continues
  simp only [Bool.or_eq_true,not_or,Bool.not_eq_true,Bool.not_eq_eq_eq_not,Bool.not_true,Bool.not_eq_false] at continues
  refine .raised _ ?_ (Phase.isRaisable_isAtLimit continues.1.1) continues.2
  cases more <;> simp

theorem step_change (event : StoreEvent) : s.Change growth event (s.step growth event) := by
  cases event with
  | submitted => exact submitted_change growth s
  | fetched ticket reply => exact fetched_change growth s ticket reply
  | fetchMore more => exact fetchMore_change growth s more
  | discard => exact .kept (loseLobs_kept s ..) rfl (.inr rfl)
  | sessionEnded => exact sessionEnded_change growth s
  | transactionEndAnswered succeeded =>
    cases succeeded with
    | false => exact .kept ⟨rfl,rfl,rfl,rfl,rfl,fun _ lost => lost⟩ rfl (.inl ⟨rfl,id⟩)
    | true => exact endTransaction_change growth s ..
  | statementExecuted outcome =>
    change s.Change growth _ (if outcome.endsTransaction then s.endTransaction else s)
    split
    · exact endTransaction_change growth s s.transactionEndsPending _
    · exact .kept (.refl s) rfl (.inl ⟨rfl,id⟩)
  | _ => exact .kept ⟨rfl,rfl,rfl,rfl,rfl,fun _ lost => lost⟩ rfl (.inl ⟨rfl,id⟩)

theorem settle_kept : Kept s (s.settle growth) := by
  unfold settle
  split
  · split <;> exact ⟨rfl,rfl,rfl,rfl,rfl,fun _ lost => lost⟩
  · exact .refl s

@[simp] theorem settle_outstanding : (s.settle growth).toOutstanding = s.toOutstanding := by
  unfold settle
  split
  · split <;> rfl
  · rfl

end

structure Grows (s later : ResultStore) : Prop where
  cells : s.cells <+: later.cells
  rowLimit : s.rowLimit ≤ later.rowLimit
  lobs : ∀ reason, s.lobs = some reason → later.lobs = some reason

namespace Grows

theorem trans (first : Grows s t) (second : Grows t u) : Grows s u :=
  ⟨first.cells.trans second.cells,first.rowLimit.trans second.rowLimit,
    fun reason lost => second.lobs reason (first.lobs reason lost)⟩

theorem of_kept (keeps : Kept s later) : Grows s later :=
  ⟨by rw [keeps.retained],by rw [ResultStore.rowLimit,ResultStore.rowLimit,keeps.caps],keeps.lobs⟩

theorem retainedRows (grows : Grows s later) : s.retainedRows ≤ later.retainedRows := by
  rw [← s.cells_length,← later.cells_length]
  exact grows.cells.length_le

theorem rowCount (grows : Grows s later) : s.rowCount ≤ later.rowCount := by
  have rows := grows.retainedRows
  have limit := grows.rowLimit
  unfold ResultStore.rowCount
  omega

end Grows

theorem take_cells (s : ResultStore) (reply : SegmentReply) :
    (s.take reply).cells = s.cells ++ Chunks.cells ResultSegment.rows [reply.segment] := by
  by_cases filled : 0 < reply.segment.rows
  · simp only [take,dif_pos filled,Retained.append,Retained.cells,Chunks.cells_append]
  · simp only [take,dif_neg filled,Chunks.cells_singleton_of_empty (Nat.eq_zero_of_not_pos filled),append_nil]

theorem take_grows (s : ResultStore) (reply : SegmentReply) : Grows s (s.take reply) :=
  ⟨by rw [take_cells]; exact prefix_append ..,le_refl _,fun _ lost => lost⟩

theorem raised_rowLimit {s : ResultStore} (later : ResultStore) (caps : later.caps = s.caps.raisedBy steps ∨ later.caps = s.caps.lifted) :
    s.rowLimit ≤ later.rowLimit := by
  obtain caps | caps := caps
  · rw [rowLimit,rowLimit,caps]
    simp only [ResultCaps.raisedBy]
    cases raised : (s.caps.maxRows.value.raisedBy steps.maxRows.value).limit with
    | none => cases s.caps.maxRows.value.limit <;> simp
    | some rows =>
      obtain ⟨before,finite,lower⟩ := Cap.raisedBy_limit raised
      simp only [finite,elim_some]
      omega
  · rw [rowLimit,rowLimit,caps]
    cases s.caps.maxRows.value.limit <;> simp [ResultCaps.lifted,Cap.limit]

section
variable {growth : VecGrowth}

theorem Change.grows {next : ResultStore} (change : s.Change growth event next) : Grows s next := by
  cases change with
  | kept keeps => exact .of_kept keeps
  | dropped keeps => exact .of_kept keeps
  | recorded request due => exact .of_kept ⟨rfl,rfl,rfl,rfl,rfl,fun _ lost => lost⟩
  | taken reply front active =>
    have popped : Grows s { s with toOutstanding := s.toOutstanding.popFront } :=
      .of_kept ⟨rfl,rfl,rfl,rfl,rfl,fun _ lost => lost⟩
    exact (popped.trans (take_grows _ reply)).trans (.of_kept (settle_kept growth _))
  | raised caps higher limit undue =>
    have lifted : Grows s { s with caps := caps, phase := .active, stopped := false } :=
      ⟨prefix_refl _,raised_rowLimit _ higher,fun _ lost => lost⟩
    exact lifted.trans (.of_kept (settle_kept growth _))

variable (growth)

theorem step_grows (s : ResultStore) (event : StoreEvent) : Grows s (s.step growth event) :=
  (s.step_change growth event).grows

theorem run_grows (s : ResultStore) (events : List StoreEvent) : Grows s (s.run growth events) := by
  induction events generalizing s with
  | nil => exact .of_kept (.refl s)
  | cons event events ih => exact (s.step_grows growth event).trans (ih _)

end

theorem segmentForRow_eq (s : ResultStore) (shown : row < s.rowCount) :
    ∃ segment first, s.segmentForRow row = some (segment,first) ∧ s.cells[row]? = some (segment,row - first) := by
  have inside : row < s.retainedRows := lt_of_lt_of_le shown (min_le_left ..)
  obtain ⟨i,index,holds⟩ := s.segmentIndex_holds inside
  have place := Chunks.cells_getElem? holds
  obtain ⟨size,chunk,low,high⟩ := holds
  obtain ⟨segment,found,rfl⟩ := map_eq_some_iff.mp ((getElem?_map ..).symm.trans chunk)
  have within : i < s.segments.length := List.getElem?_eq_some_iff.mp found |>.1
  have inside : i < (s.segments.map ResultSegment.rows).length := by simpa using within
  have start := Chunks.starts_getElem? 0 inside
  rw [← s.starts_eq,zero_add] at start
  refine ⟨segment,((s.segments.map ResultSegment.rows).take i).sum,?_,?_⟩
  · rw [segmentForRow,if_neg (by omega)]
    simp [index,found,start]
  · rw [Retained.cells,place,found]
    rfl

theorem value_eq (s : ResultStore) (row column : Nat) : s.value row column = if row < s.rowCount then
        s.cells[row]?.bind fun cell => (cell.1.value cell.2 column).map (served s.lobs)
      else none := by
  split
  · rename_i shown
    obtain ⟨segment,first,found,cell⟩ := s.segmentForRow_eq shown
    rw [value,found,cell]
    simp [map_eq_bind]
  · rename_i hidden
    rw [value,segmentForRow,if_pos (by omega)]
    rfl

theorem served_stable (grows : Grows s later) (cell : CellValue) : served later.lobs cell = served s.lobs cell ∨
      ∃ handle reason, served s.lobs cell = .lob handle ∧ served later.lobs cell = .lobUnavailable reason := by
  cases cell with
  | lob handle =>
    cases before : s.lobs with
    | some reason => rw [grows.lobs reason before]; exact .inl rfl
    | none =>
      cases after : later.lobs with
      | none => exact .inl rfl
      | some reason => exact .inr ⟨handle,reason,rfl,rfl⟩
  | _ => exact .inl rfl

/-- A cell that was read keeps its value, but for a large object that is lost. -/
theorem Grows.value (grows : Grows s later) (read : s.value row column = some cell) :
    later.value row column = some cell ∨
      ∃ handle reason, cell = .lob handle ∧ later.value row column = some (.lobUnavailable reason) := by
  rw [value_eq] at read ⊢
  split at read
  · rename_i shown
    rw [if_pos (lt_of_lt_of_le shown grows.rowCount)]
    obtain ⟨place,found,value⟩ := bind_eq_some_iff.mp read
    obtain ⟨stored,held,rfl⟩ := map_eq_some_iff.mp value
    have still : later.cells[row]? = some place := by
      obtain ⟨more,extended⟩ := grows.cells
      rw [← extended,List.getElem?_append_left (List.getElem?_eq_some_iff.mp found).1,found]
    simp only [still,bind_some,held,map_some,Option.some.injEq]
    obtain same | ⟨handle,reason,before,after⟩ := served_stable grows stored
    · exact .inl same
    · exact .inr ⟨handle,reason,before,after⟩
  · cases read

variable (growth : VecGrowth)

def appendedBy (s : ResultStore) : StoreEvent → List ResultSegment
  | .fetched ticket (.ok reply) =>
    match (s.onFetched growth ticket (.ok reply)).2 with
    | .appended _ => [reply.segment]
    | _ => []
  | _ => []

def appended : ResultStore → List StoreEvent → List ResultSegment
  | _, [] => []
  | s, event :: events => s.appendedBy growth event ++ appended (s.step growth event) events

variable (s : ResultStore) (ticket : FetchTicket) (reply : Except DbError SegmentReply)

theorem onFetched_cases :
    (∃ taken, reply = .ok taken ∧ s.onFetched growth ticket reply =
      (({ s with toOutstanding := s.toOutstanding.popFront }.take taken).settle growth,
        .appended taken.segment.rows)) ∨
    (∀ rows, (s.onFetched growth ticket reply).2 ≠ .appended rows) ∧
      (s.onFetched growth ticket reply).1.toRetained = s.toRetained := by
  unfold onFetched
  split
  · exact .inr ⟨nofun,rfl⟩
  split
  · refine .inr ⟨nofun,?_⟩
    unfold refuse
    dsimp only
    split <;> rfl
  dsimp only
  split
  · exact .inr ⟨nofun,rfl⟩
  split
  · exact .inr ⟨nofun,rfl⟩
  split
  · exact .inr ⟨nofun,rfl⟩
  · exact .inl ⟨_,rfl,rfl⟩

theorem onFetched_cells : (s.onFetched growth ticket reply).1.cells =
      s.cells ++ Chunks.cells ResultSegment.rows (s.appendedBy growth (.fetched ticket reply)) := by
  obtain ⟨taken,rfl,outcome⟩ | ⟨refused,same⟩ := s.onFetched_cases growth ticket reply
  · rw [appendedBy,outcome]
    simp only [(settle_kept growth _).retained]
    exact take_cells _ taken
  · have none : s.appendedBy growth (.fetched ticket reply) = [] := by
      cases reply with
      | error error => rfl
      | ok reply =>
        rw [appendedBy]
        split
        · rename_i rows appended
          exact absurd appended (refused rows)
        · rfl
    rw [none,Chunks.cells_nil,append_nil,same]

theorem Change.retained {s next : ResultStore} (change : s.Change growth event next)
    (other : ∀ ticket reply, event ≠ .fetched ticket reply) : next.toRetained = s.toRetained := by
  cases change with
  | kept keeps => exact keeps.retained
  | recorded => rfl
  | dropped => exact absurd rfl (other _ _)
  | taken => exact absurd rfl (other _ _)
  | raised => exact (settle_kept growth _).retained

theorem step_cells (s : ResultStore) (event : StoreEvent) :
    (s.step growth event).cells = s.cells ++ Chunks.cells ResultSegment.rows (s.appendedBy growth event) := by
  cases event with
  | fetched ticket reply => exact s.onFetched_cells growth ticket reply
  | _ =>
    rw [(s.step_change growth _).retained growth (by simp)]
    simp [appendedBy]

theorem run_cells (s : ResultStore) (events : List StoreEvent) :
    (s.run growth events).cells = s.cells ++ Chunks.cells ResultSegment.rows (s.appended growth events) := by
  induction events generalizing s with
  | nil => simp [run,appended]
  | cons event events ih =>
    rw [appended,Chunks.cells_append,← append_assoc,← s.step_cells growth event]
    exact ih _

/-- Over every run, the rows retained are those of the appended replies in order. Readers
see a prefix that never shrinks, cell by cell, and what was read stays. -/
theorem reads_appended_rows (result : ResultId) (columns : List ColumnMetadata) (policy : ResultPolicy)
    (events later : List StoreEvent) :
    let opened := new result columns policy
    let s := opened.run growth events
    let next := s.run growth later
    let fetched := Chunks.cells ResultSegment.rows (opened.appended growth events)
    Chunks.cells ResultSegment.rows s.segments = fetched ∧ s.retainedRows = fetched.length ∧
    s.rowCount ≤ s.retainedRows ∧ s.rowCount ≤ next.rowCount ∧
    (∀ row column, s.value row column =
      if row < s.rowCount then
        fetched[row]?.bind fun cell => (cell.1.value cell.2 column).map (served s.lobs)
      else none) ∧
    ∀ row column cell, s.value row column = some cell → next.value row column = some cell ∨
        ∃ handle reason, cell = .lob handle ∧ next.value row column = some (.lobUnavailable reason) := by
  intro opened s next fetched
  have cells : s.cells = fetched := run_cells growth opened events
  have grows : Grows s next := s.run_grows growth later
  refine ⟨cells,?_,min_le_left ..,grows.rowCount,?_,?_⟩
  · rw [← cells,s.cells_length]
  · intro row column
    rw [value_eq,cells]
  · intro row column cell read
    exact grows.value read

end Reldex.ResultStore
