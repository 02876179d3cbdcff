import Reldex.StoreReads

/-! The caps over whole runs. Requests are sized by a width that moves with every reply
while earlier ones keep their estimate, so the bounds are invariants: what is retained
and outstanding never passes the caps, and a store that could still fetch does. -/
namespace Reldex.ResultStore
open List Option
variable {growth : VecGrowth}

section
variable {s next : ResultStore}

structure FetchDue (growth : VecGrowth) (s : ResultStore) (request : FetchRequest) : Prop where
  undue : s.closeDue = false
  active : s.phase = .active
  stopped : s.stopped = false
  exhausted : s.exhausted = false
  settled : s.transactionEndsPending = 0
  place : s.inFlight.length < s.policy.fetchesInFlight
  sighted : s.retainedRows = 0 → s.inFlight = []
  rows : s.nextRequestRows growth = some request.maxRows
  ticket : request.ticket = ⟨s.result,s.nextSequence⟩

theorem due_fetch_iff : s.due growth = some (.fetch request) ↔ FetchDue growth s request := by
  constructor
  · intro due
    unfold ResultStore.due at due
    split at due
    · cases due
    rename_i undue
    split at due
    · cases due
    rename_i fetching
    simp only [Bool.or_eq_true,Bool.and_eq_true,decide_eq_true_eq,not_or,not_and,Bool.not_eq_true,
      Bool.not_eq_eq_eq_not,Bool.not_true,Bool.not_eq_false,Phase.isActive_iff,beq_iff_eq,
      List.isEmpty_iff] at fetching
    obtain ⟨⟨⟨⟨⟨active,stopped⟩,exhausted⟩,settled⟩,place⟩,sighted⟩ := fetching
    obtain ⟨maxRows,rows,same⟩ := map_eq_some_iff.mp due
    cases same
    exact ⟨by simpa using undue,active,stopped,exhausted,by omega,by omega,sighted,rows,rfl⟩
  · intro due
    have ticket := due.ticket
    obtain ⟨_,maxRows⟩ := request
    subst ticket
    have place := due.place
    have sighted := due.sighted
    have busy : (s.retainedRows == 0 && !s.inFlight.isEmpty) = false := by
      cases none : s.retainedRows == 0 with
      | false => rfl
      | true => simp [sighted (by simpa using none)]
    simp [ResultStore.due,due.undue,due.active,due.stopped,due.exhausted,due.settled,due.rows,busy,
      Phase.isActive,place]

theorem rowLimit_le (s : ResultStore) : 1 ≤ s.rowLimit ∧ s.rowLimit ≤ gridRowCeiling := by
  unfold rowLimit
  cases finite : s.caps.maxRows.value.limit with
  | none => exact ⟨by decide,Nat.le_refl _⟩
  | some rows =>
    have positive := (Cap.limit_le finite).1
    simp only [elim_some,gridRowCeiling]
    omega

theorem rowWidth_pos (s : ResultStore) : 1 ≤ s.rowWidth := by
  unfold rowWidth
  split
  · rw [s.declared]
    exact declaredRowWidth_pos _
  · exact Nat.le_max_left ..

theorem NonZeroUsize.new_val (found : NonZeroUsize.new n = some m) : m.val = n := by
  unfold NonZeroUsize.new at found
  split at found <;> cases found
  rfl

theorem rowRoom_eq (s : ResultStore) : s.rowRoom = s.rowLimit + 1 - (s.retainedRows + s.inFlightRows) := by
  rw [rowRoom,saturatingAdd_eq]
  have := s.rowLimit_le.2
  unfold gridRowCeiling usizeMax at *
  omega

theorem nextRequestRows_fits (found : s.nextRequestRows growth = some rows) :
    rows.val ≤ s.rowRoom ∧ rows.val ≤ s.byteRoom growth ∨ s.firstSubmitted = false ∧ rows.val = 1 := by
  unfold nextRequestRows at found
  split at found
  · cases found
  obtain fits | ⟨-,first⟩ := or_eq_some_iff.mp found
  · have exact := NonZeroUsize.new_val fits
    omega
  · split at first
    · cases first
    · rename_i fresh
      exact .inr ⟨by simpa using fresh,NonZeroUsize.new_val first⟩

theorem byteRoom_fits (finite : s.caps.maxBytes.value.limit = some cap)
    (some_row : 0 < rows) (fits : rows ≤ s.byteRoom growth) :
    s.retainedBytes growth + s.inFlightBytes + rows * s.rowWidth ≤ cap ∧
      saturatingMul rows s.rowWidth = rows * s.rowWidth := by
  have width := s.rowWidth_pos
  have most := (Cap.limit_le finite).2
  rw [byteRoom,finite,elim_some,Nat.le_div_iff_mul_le width] at fits
  have product : 0 < rows * s.rowWidth := Nat.mul_pos some_row width
  have used := saturatingAdd_of_lt (a := s.retainedBytes growth) (b := s.inFlightBytes) (by omega)
  exact ⟨by omega,saturatingMul_eq (by omega)⟩

/-- The accounts of the outstanding fetches. While the byte cap is finite the estimates
are counted exactly: every one of them fitted below the cap. -/
structure Accounted (s : ResultStore) : Prop where
  places : s.inFlight.length ≤ s.policy.fetchesInFlight
  blind : s.retainedRows = 0 → s.inFlight.length ≤ 1
  fresh : s.firstSubmitted = false → s.inFlight = [] ∧ s.inFlightBytes = 0 ∧ s.retainedRows = 0
  bytes : ∀ cap, s.caps.maxBytes.value.limit = some cap → s.inFlightBytes = (s.inFlight.map InFlight.bytes).sum

variable (result : ResultId) (columns : List ColumnMetadata)

theorem new_accounted (policy : ResultPolicy) : Accounted (new result columns policy) :=
  ⟨Nat.zero_le _,fun _ => Nat.zero_le _,fun _ => ⟨rfl,rfl,rfl⟩,fun _ _ => rfl⟩

section
variable (accounted : Accounted s)
include accounted

theorem Accounted.transfer (shrinks : s.toOutstanding.Shrinks next.toOutstanding) (policy : next.policy = s.policy)
    (rows : s.retainedRows ≤ next.retainedRows)
    (fresh : next.firstSubmitted = false → next.retainedRows = s.retainedRows)
    (finite : ∀ cap, next.caps.maxBytes.value.limit = some cap →
      ∃ before, s.caps.maxBytes.value.limit = some before) : Accounted next where
  places := by rw [policy]; exact shrinks.length.trans accounted.places
  blind none := shrinks.length.trans (accounted.blind (by omega))
  fresh none := by
    obtain ⟨idle,bytes,empty⟩ := accounted.fresh (shrinks.first ▸ none)
    have length := shrinks.length
    have estimate := shrinks.estimate
    rw [idle,length_nil] at length
    exact ⟨length_eq_zero_iff.mp (by omega),by omega,(fresh none).trans empty⟩
  bytes cap bounded := by
    obtain ⟨before,bounded⟩ := finite cap bounded
    exact shrinks.bytes (accounted.bytes before bounded)

theorem Accounted.keep (keeps : Kept s next)
    (shrinks : s.toOutstanding.Shrinks next.toOutstanding) : Accounted next := by
  refine accounted.transfer shrinks keeps.policy ?_ ?_ ?_
  · rw [keeps.retained]
  · intro _
    rw [keeps.retained]
  · intro cap bounded
    exact ⟨cap,by rw [← keeps.caps]; exact bounded⟩

theorem Accounted.settle : Accounted (s.settle growth) :=
  accounted.keep (settle_kept growth s) (by rw [settle_outstanding]; exact .refl _)

end

theorem record_inFlight (s : ResultStore) (request : FetchRequest) :
    (s.record (.fetch request)).inFlight = s.inFlight ++
      [⟨request.ticket.sequence,request.maxRows,saturatingMul request.maxRows s.rowWidth⟩] := rfl

theorem Accounted.record (accounted : Accounted s)
    (due : FetchDue growth s request) : Accounted (s.record (.fetch request)) where
  places := by
    have place := due.place
    rw [record_inFlight,length_append,length_singleton]
    exact place
  blind none := by
    have idle : s.inFlight = [] := due.sighted none
    simp [record_inFlight,idle]
  fresh := nofun
  bytes cap bounded := by
    change s.caps.maxBytes.value.limit = some cap at bounded
    have exact := accounted.bytes cap bounded
    rw [record_inFlight,map_append,sum_append,← exact]
    apply saturatingAdd_eq
    dsimp only
    obtain ⟨_,fits⟩ | ⟨first,_⟩ := nextRequestRows_fits due.rows
    · have room := byteRoom_fits bounded request.maxRows.2.1 fits
      have most := (Cap.limit_le bounded).2
      omega
    · have none := (accounted.fresh first).2.1
      have most := saturatingMul_le (a := request.maxRows.val) (b := s.rowWidth)
      omega

theorem take_rows (s : ResultStore) (reply : SegmentReply) :
    (s.take reply).retainedRows = s.retainedRows + reply.segment.rows := by
  rw [← Retained.cells_length,take_cells,length_append,Retained.cells_length]
  simp

theorem raised_finite {caps steps : ResultCaps}
    (higher : caps = s.caps.raisedBy steps ∨ caps = s.caps.lifted) (finite : caps.maxBytes.value.limit = some cap) :
    ∃ before, s.caps.maxBytes.value.limit = some before := by
  obtain rfl | rfl := higher
  · obtain ⟨before,bounded,_⟩ := Cap.raisedBy_limit finite
    exact ⟨before,bounded⟩
  · cases finite

theorem front_of_head {sequence : Nat} (front : entries.head?.map InFlight.sequence = some sequence) :
    ∃ entry rest, entries = entry :: rest ∧ entry.sequence = sequence := by
  cases entries with
  | nil => cases front
  | cons entry rest => exact ⟨entry,rest,rfl,by simpa using front⟩

theorem Accounted.change (accounted : Accounted s) (change : s.Change growth event next) : Accounted next := by
  cases change with
  | kept keeps outstanding => exact accounted.keep keeps (outstanding ▸ .refl _)
  | dropped keeps outstanding =>
    refine accounted.keep keeps ?_
    obtain outstanding | outstanding := outstanding <;> rw [outstanding]
    · exact s.toOutstanding.remove_shrinks _
    · exact s.toOutstanding.popFront_shrinks
  | recorded request due => exact accounted.record (due_fetch_iff.mp due)
  | taken reply front active =>
    obtain ⟨entry,rest,shape,_⟩ := front_of_head front
    refine Accounted.settle ?_
    refine accounted.transfer s.toOutstanding.popFront_shrinks rfl ?_ ?_ fun cap bounded => ⟨cap,bounded⟩
    · rw [take_rows]
      exact Nat.le_add_right ..
    · intro none
      have idle := (accounted.fresh (s.toOutstanding.popFront_shrinks.first ▸ none)).1
      rw [shape] at idle
      cases idle
  | raised caps higher limit undue =>
    refine Accounted.settle ?_
    exact accounted.transfer (.refl _) rfl (Nat.le_refl _) (fun _ => rfl) fun cap bounded =>
      raised_finite higher bounded

theorem run_accounted (accounted : Accounted s) (events : List StoreEvent) : Accounted (s.run growth events) := by
  induction events generalizing s with
  | nil => exact accounted
  | cons event events ih => exact ih (accounted.change (s.step_change growth event))

def Served (s : ResultStore) : StoreEvent → Prop
  | .fetched ticket (.ok reply) =>
    ∀ entry ∈ s.inFlight, entry.sequence = ticket.sequence → reply.segment.rows ≤ entry.rows
  | _ => True

def ServedRun (growth : VecGrowth) : ResultStore → List StoreEvent → Prop
  | _, [] => True
  | s, event :: events => s.Served event ∧ ServedRun growth (s.step growth event) events

/-- The rows held and asked for never pass the limit and its lookahead. -/
def WithinLimit (s : ResultStore) : Prop := s.retainedRows + s.inFlightRows ≤ s.rowLimit + 1

theorem WithinLimit.keep (within : WithinLimit s) (keeps : Kept s next)
    (shrinks : s.toOutstanding.Shrinks next.toOutstanding) : WithinLimit next := by
  have rows := shrinks.rows
  unfold WithinLimit at *
  rw [keeps.retained,rowLimit,keeps.caps,← rowLimit]
  omega

theorem record_within (accounted : Accounted s)
    (due : FetchDue growth s request) : WithinLimit (s.record (.fetch request)) := by
  change s.retainedRows + (s.inFlightRows + request.maxRows.val) ≤ s.rowLimit + 1
  obtain ⟨fits,_⟩ | ⟨first,single⟩ := nextRequestRows_fits due.rows
  · rw [rowRoom_eq] at fits
    have positive := request.maxRows.2.1
    omega
  · obtain ⟨idle,_,none⟩ := accounted.fresh first
    have rows := s.flight_eq
    rw [idle,map_nil,sum_nil] at rows
    omega

theorem WithinLimit.change (within : WithinLimit s) (accounted : Accounted s)
    (served : s.Served event) (change : s.Change growth event next) : WithinLimit next := by
  cases change with
  | kept keeps outstanding => exact within.keep keeps (outstanding ▸ .refl _)
  | dropped keeps outstanding =>
    refine within.keep keeps ?_
    obtain outstanding | outstanding := outstanding <;> rw [outstanding]
    · exact s.toOutstanding.remove_shrinks _
    · exact s.toOutstanding.popFront_shrinks
  | recorded request due => exact record_within accounted (due_fetch_iff.mp due)
  | taken reply front active =>
    obtain ⟨entry,rest,shape,same⟩ := front_of_head front
    have carried : reply.segment.rows ≤ entry.rows := served entry (by simp [shape]) same
    have flight := (Outstanding.popFront_rows shape).2
    refine WithinLimit.keep ?_ (settle_kept growth _) (by rw [settle_outstanding]; exact .refl _)
    unfold WithinLimit at *
    rw [take_rows]
    change s.retainedRows + reply.segment.rows + s.toOutstanding.popFront.inFlightRows ≤ s.rowLimit + 1
    omega
  | raised caps higher limit undue =>
    refine WithinLimit.keep ?_ (settle_kept growth _) (by rw [settle_outstanding]; exact .refl _)
    have rises := raised_rowLimit { s with caps := caps, phase := .active, stopped := false } higher
    unfold WithinLimit at *
    dsimp only
    omega

theorem run_within (accounted : Accounted s) (within : WithinLimit s)
    (served : s.ServedRun growth events) : WithinLimit (s.run growth events) := by
  induction events generalizing s with
  | nil => exact within
  | cons event events ih =>
    have change := s.step_change growth event
    exact ih (accounted.change change) (within.change accounted served.1 change) served.2

theorem Change.policy (change : s.Change growth event next) : next.policy = s.policy := by
  cases change with
  | kept keeps => exact keeps.policy
  | dropped keeps => exact keeps.policy
  | recorded => rfl
  | taken => exact (settle_kept growth _).policy
  | raised => exact (settle_kept growth _).policy

theorem run_policy (s : ResultStore) (events : List StoreEvent) : (s.run growth events).policy = s.policy := by
  induction events generalizing s with
  | nil => rfl
  | cons event events ih => exact (ih _).trans (s.step_change growth event).policy

theorem record_bytes (accounted : Accounted s)
    (due : s.due growth = some (.fetch request)) (submitted : s.firstSubmitted = true)
    (finite : s.caps.maxBytes.value.limit = some cap) :
    (s.record (.fetch request)).retainedBytes growth +
      ((s.record (.fetch request)).inFlight.map InFlight.bytes).sum ≤ cap := by
  have asked := due_fetch_iff.mp due
  obtain ⟨_,fits⟩ | ⟨first,_⟩ := nextRequestRows_fits asked.rows
  · have room := byteRoom_fits finite request.maxRows.2.1 fits
    have exact := accounted.bytes cap finite
    have same : (s.record (.fetch request)).retainedBytes growth = s.retainedBytes growth := rfl
    rw [same,record_inFlight,map_append,sum_append,← exact]
    simp only [map_singleton,sum_singleton]
    omega
  · rw [submitted] at first
    cases first

/-- The caps over a run whose replies carry no more than was asked for: the rows held
and asked for stay within the limit and its lookahead, every fetch recorded after the
first fits below a finite byte cap, and no more fetches are outstanding than allowed. -/
theorem caps_are_exact (result : ResultId) (columns : List ColumnMetadata) (policy : ResultPolicy)
    (events : List StoreEvent) (served : (new result columns policy).ServedRun growth events) :
    let s := (new result columns policy).run growth events
    s.retainedRows + (s.inFlight.map InFlight.rows).sum ≤ s.rowLimit + 1 ∧
    s.inFlight.length ≤ policy.fetchesInFlight ∧ (s.retainedRows = 0 → s.inFlight.length ≤ 1) ∧
    ∀ request cap, s.due growth = some (.fetch request) → s.firstSubmitted = true →
      s.caps.maxBytes.value.limit = some cap →
      (s.record (.fetch request)).retainedBytes growth +
        ((s.record (.fetch request)).inFlight.map InFlight.bytes).sum ≤ cap := by
  intro s
  have accounted : Accounted s := run_accounted (new_accounted result columns policy) events
  have within : WithinLimit s := run_within (new_accounted result columns policy) (Nat.zero_le _) served
  have places := accounted.places
  rw [run_policy] at places
  refine ⟨?_,places,accounted.blind,?_⟩
  · rw [← s.flight_eq]
    exact within
  · intro request cap due submitted finite
    exact record_bytes accounted due submitted finite

theorem exact_unallocated : (fun n : Nat => n) 0 = 0 := rfl

def exactGrowth : VecGrowth := ⟨fun n => n,exact_unallocated⟩

theorem two_nonzero : 0 < 2 ∧ 2 ≤ usizeMax := by decide

def smallPolicy : ResultPolicy :=
  { caps := { maxRows := ⟨.at ⟨2,two_nonzero⟩,.profile⟩, maxBytes := ⟨.at ⟨4096,by decide⟩,.profile⟩ } }

def smallStore : ResultStore := new ⟨1,1⟩ [⟨.number,none⟩] smallPolicy
def smallReply : SegmentReply := ⟨⟨1,2,[⟨⟨[0],2,rfl⟩,.number (.scaled [7,8] 0)⟩],128⟩,false⟩
def smallRun : List StoreEvent := [.submitted,.fetched ⟨⟨1,1⟩,0⟩ (.ok smallReply),.setDemand 9,.submitted]

theorem smallRun_served : smallStore.ServedRun exactGrowth smallRun := by
  refine ⟨trivial,?_,trivial,trivial,trivial⟩
  change ∀ entry ∈ (smallStore.step exactGrowth .submitted).inFlight, entry.sequence = 0 → 2 ≤ entry.rows
  decide

/-- At the row cap one more row is asked for, and no more. -/
theorem small_store_is_exact : (smallStore.run exactGrowth smallRun).inFlight = [⟨1,1,45⟩] ∧
    (smallStore.run exactGrowth smallRun).retainedRows +
      ((smallStore.run exactGrowth smallRun).inFlight.map InFlight.rows).sum ≤
        (smallStore.run exactGrowth smallRun).rowLimit + 1 :=
  ⟨by decide,(caps_are_exact ⟨1,1⟩ [⟨.number,none⟩] smallPolicy smallRun smallRun_served).1⟩

/-- An active store with nothing in flight found room under its caps, unless it never
fetched; one stopped at a cap has nothing in flight, and one that is complete has every row. -/
structure Live (growth : VecGrowth) (s : ResultStore) : Prop where
  idle : s.phase = .active → s.inFlight = [] → s.firstSubmitted = true → s.restingPhase growth = none
  undue : s.phase = .active → s.closeDue = false
  rest : s.phase.isAtLimit = true → s.inFlight = []
  done : s.phase = .complete → s.exhausted = true ∧ s.retainedRows ≤ s.rowLimit

theorem new_live (policy : ResultPolicy) : Live growth (new result columns policy) :=
  ⟨nofun,fun _ => rfl,nofun,nofun⟩

theorem rowLimit_kept (keeps : Kept s next) : next.rowLimit = s.rowLimit := by rw [rowLimit,rowLimit,keeps.caps]

theorem restingPhase_kept (keeps : Kept s next) : next.restingPhase growth = s.restingPhase growth := by
  have bytes : next.retainedBytes growth = s.retainedBytes growth := by
    rw [retainedBytes,retainedBytes,keeps.retained]
  have width : next.rowWidth = s.rowWidth := by rw [rowWidth,rowWidth,keeps.retained,keeps.declaredWidth]
  rw [restingPhase,restingPhase,rowLimit_kept keeps,bytes,width,keeps.caps,keeps.exhausted,keeps.retained]

theorem restingPhase_inactive {phase : Phase} (rests : s.restingPhase growth = some phase) :
    phase ≠ .active ∧ (phase = .complete → s.exhausted = true ∧ s.retainedRows ≤ s.rowLimit) := by
  unfold restingPhase at rests
  split at rests
  · cases rests
    exact ⟨nofun,nofun⟩
  next rows =>
    split at rests
    · next exhausted =>
      cases rests
      exact ⟨nofun,fun _ => ⟨exhausted,Nat.le_of_not_lt rows⟩⟩
    · split at rests <;> cases rests
      exact ⟨nofun,nofun⟩

theorem restingPhase_none (moves : s.restingPhase growth = none) :
    s.retainedRows ≤ s.rowLimit ∧ ∀ cap, s.caps.maxBytes.value.limit = some cap →
      saturatingAdd (s.retainedBytes growth) s.rowWidth ≤ cap := by
  unfold restingPhase at moves
  split at moves
  · cases moves
  split at moves
  · cases moves
  split at moves
  · cases moves
  rename_i rows _ bytes
  refine ⟨Nat.le_of_not_lt rows,?_⟩
  intro cap finite
  simpa [finite] using bytes

theorem settle_live (active : s.phase = .active) (undue : s.closeDue = false) : Live growth (s.settle growth) := by
  unfold settle
  split
  · rename_i settles
    have idle : s.inFlight = [] := by simpa [active,Phase.isActive] using settles
    split
    · rename_i moves
      exact ⟨fun _ _ _ => moves,fun _ => undue,fun _ => idle,by simp [active]⟩
    · rename_i phase rests
      obtain ⟨inactive,done⟩ := restingPhase_inactive rests
      exact ⟨fun again => absurd again inactive,fun again => absurd again inactive,fun _ => idle,done⟩
  · rename_i busy
    simp only [active,Phase.isActive,Bool.true_and,List.isEmpty_iff] at busy
    exact ⟨fun _ idle => absurd idle busy,fun _ => undue,by simp [active,Phase.isAtLimit],by simp [active]⟩

theorem live_of_over (past : s.isOver = true) : Live growth s := by
  cases phase : s.phase with
  | failed | ended => exact ⟨by simp [phase],by simp [phase],by simp [phase,Phase.isAtLimit],by simp [phase]⟩
  | _ => simp [isOver,phase] at past

theorem Live.change (live : Live growth s) (change : s.Change growth event next) : Live growth next := by
  cases change with
  | kept keeps outstanding phase =>
    obtain ⟨same,closes⟩ | past := phase
    · refine ⟨?_,?_,?_,?_⟩
      · rw [same,outstanding,restingPhase_kept keeps]
        exact live.idle
      · intro active
        have undue := live.undue (same ▸ active)
        cases due : next.closeDue with
        | false => rfl
        | true => rw [closes due] at undue; cases undue
      · rw [same,outstanding]
        exact live.rest
      · rw [same,keeps.exhausted,keeps.retained,rowLimit_kept keeps]
        exact live.done
    · exact live_of_over past
  | dropped keeps outstanding phase =>
    obtain past | ⟨same,inactive⟩ := phase
    · exact live_of_over past
    rw [← same] at inactive
    refine ⟨fun active => by simp [active,Phase.isActive] at inactive,
      fun active => by simp [active,Phase.isActive] at inactive,fun limit => ?_,?_⟩
    swap
    · rw [same,keeps.exhausted,keeps.retained,rowLimit_kept keeps]
      exact live.done
    have none := live.rest (same ▸ limit)
    have shrinks : s.toOutstanding.Shrinks next.toOutstanding := by
      obtain outstanding | outstanding := outstanding <;> rw [outstanding]
      · exact s.toOutstanding.remove_shrinks _
      · exact s.toOutstanding.popFront_shrinks
    have length := shrinks.length
    rw [none] at length
    exact length_eq_zero_iff.mp (Nat.le_zero.mp length)
  | recorded request due =>
    have asked := due_fetch_iff.mp due
    have active : (s.record (.fetch request)).phase = .active := asked.active
    exact ⟨fun _ idle => by simp [record_inFlight] at idle,fun _ => asked.undue,by simp [active,Phase.isAtLimit],
      by simp [active]⟩
  | taken reply front active => exact settle_live active (live.undue active)
  | raised caps higher limit undue => exact settle_live rfl undue

theorem retainedBytes_zero (none : s.retainedRows = 0) : s.retainedBytes growth = 0 := by
  have empty : s.segments = [] := by
    rw [s.rows_eq,sum_eq_zero_iff] at none
    cases shape : s.segments with
    | nil => rfl
    | cons segment rest =>
      have member : segment ∈ s.segments := by simp [shape]
      have filled := s.filled segment member
      have zero := none segment.rows (mem_map_of_mem member)
      omega
  simp [retainedBytes,s.bytes_eq,s.starts_eq,empty,Chunks.starts,growth.unallocated]

def Addressable (growth : VecGrowth) (s : ResultStore) : Prop := 2 * s.retainedBytes growth ≤ usizeMax

end

inductive Reachable (growth : VecGrowth) : ResultStore → Prop where
  | new (result : ResultId) (columns : List ColumnMetadata) (policy : ResultPolicy) :
      Reachable growth (new result columns policy)
  | step (reached : Reachable growth s) (event : StoreEvent) (fits : Addressable growth (s.step growth event)) :
      Reachable growth (s.step growth event)

theorem Reachable.invariants (reached : Reachable growth s) : Accounted s ∧ Live growth s ∧ Addressable growth s := by
  induction reached with
  | new result columns policy =>
    refine ⟨new_accounted result columns policy,new_live result columns policy,?_⟩
    rw [Addressable,retainedBytes_zero rfl]
    exact Nat.zero_le _
  | @step s reached event fits ih =>
    have change := s.step_change growth event
    exact ⟨ih.1.change change,ih.2.1.change change,fits⟩

/-- The room a request is sized by and the test that stops a store do not saturate. -/
theorem rowWidth_fits (fits : Addressable growth s) : s.retainedBytes growth + s.rowWidth ≤ usizeMax := by
  by_cases none : s.retainedRows = 0
  · have width := declaredRowWidth_le s.columns
    rw [retainedBytes_zero none,Nat.zero_add,rowWidth,if_pos none,s.declared]
    exact width
  · have average := Nat.div_le_self s.segmentBytes s.retainedRows
    have held : s.segmentBytes ≤ s.retainedBytes growth := by unfold retainedBytes; omega
    rw [rowWidth,if_neg none]
    unfold Addressable usizeMax at *
    omega

variable {s : ResultStore}

theorem idle_room (reached : Reachable growth s) (active : s.phase = .active)
    (idle : s.inFlight = []) (submitted : s.firstSubmitted = true) :
    s.retainedRows ≤ s.rowLimit ∧ ∀ cap, s.caps.maxBytes.value.limit = some cap →
      s.retainedBytes growth + s.rowWidth ≤ cap := by
  obtain ⟨_,live,fits⟩ := reached.invariants
  obtain ⟨rows,bytes⟩ := restingPhase_none (live.idle active idle submitted)
  refine ⟨rows,?_⟩
  intro cap finite
  rw [← saturatingAdd_eq (rowWidth_fits fits)]
  exact bytes cap finite

theorem NonZeroUsize.new_pos (positive : 0 < n) (fits : n ≤ usizeMax) : ∃ m, NonZeroUsize.new n = some m :=
  ⟨_,dif_pos ⟨positive,fits⟩⟩

theorem rowsPerRoundTrip_bounds (s : ResultStore) : 1 ≤ s.rowsPerRoundTrip ∧ s.rowsPerRoundTrip ≤ usizeMax := by
  have := s.policy.fetchRows.2
  unfold rowsPerRoundTrip
  omega

/-- More rows are wanted: all of them, more than are held, or the first. -/
def Wanted (s : ResultStore) : Prop :=
  s.fetchAll = true ∨ s.retainedRows < s.demand + s.rowsPerRoundTrip ∨ s.firstSubmitted = false

theorem target_above (below : s.retainedRows < usizeMax) (submitted : s.firstSubmitted = true)
    (wanted : s.Wanted) : s.retainedRows < s.target := by
  rw [Wanted,submitted] at wanted
  unfold target
  split
  · exact below
  · rename_i some_rows
    have wants := (wanted.resolve_left some_rows).resolve_right (by simp)
    unfold saturatingAdd
    omega

section
variable (reached : Reachable growth s) (active : s.phase = .active) (idle : s.inFlight = [])
include reached active idle

theorem byteRoom_pos (submitted : s.firstSubmitted = true) : 1 ≤ s.byteRoom growth := by
  unfold byteRoom
  cases finite : s.caps.maxBytes.value.limit with
  | none => exact (by decide : 1 ≤ usizeMax)
  | some cap =>
    have fits := (idle_room reached active idle submitted).2 cap finite
    have none := reached.invariants.1.bytes cap finite
    rw [idle,map_nil,sum_nil] at none
    have most := (Cap.limit_le finite).2
    rw [elim_some,none,saturatingAdd_eq (by omega),Nat.le_div_iff_mul_le s.rowWidth_pos]
    omega

theorem nextRequestRows_some (wanted : s.Wanted) : ∃ rows, s.nextRequestRows growth = some rows := by
  cases submitted : s.firstSubmitted with
  | false =>
    obtain ⟨single,first⟩ := NonZeroUsize.new_pos Nat.one_pos (by decide)
    simp only [nextRequestRows,submitted,Bool.false_and,Bool.false_eq_true,if_false,first]
    cases NonZeroUsize.new (min (min s.rowsPerRoundTrip s.rowRoom) (s.byteRoom growth)) <;> simp
  | true =>
    have rows := (idle_room reached active idle submitted).1
    have bytes := byteRoom_pos reached active idle submitted
    have limit := s.rowLimit_le.2
    have below : s.retainedRows < usizeMax := by unfold gridRowCeiling usizeMax at *; omega
    have short := target_above below submitted wanted
    have flight := s.flight_eq
    rw [idle,map_nil,sum_nil] at flight
    have room : 1 ≤ s.rowRoom := by rw [rowRoom_eq]; omega
    obtain ⟨one,most⟩ := s.rowsPerRoundTrip_bounds
    obtain ⟨granted,found⟩ := NonZeroUsize.new_pos
      (n := min (min s.rowsPerRoundTrip s.rowRoom) (s.byteRoom growth)) (by omega) (by omega)
    refine ⟨granted,?_⟩
    rw [nextRequestRows,found,if_neg (by simp [flight,short])]
    rfl

end

def smallIdle : ResultStore :=
  ((smallStore.step exactGrowth .submitted).step exactGrowth (.fetched ⟨⟨1,1⟩,0⟩ (.ok smallReply))).step
    exactGrowth (.setDemand 9)

theorem smallIdle_reachable : Reachable exactGrowth smallIdle :=
  .step (.step (.step (.new ..) _ (by unfold Addressable; decide)) _ (by unfold Addressable; decide)) _
    (by unfold Addressable; decide)

end Reldex.ResultStore
