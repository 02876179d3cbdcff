import Reldex.ResultPolicy
import Reldex.Chunks

/-! One open result: the rows retained so far, the fetches outstanding, and the phase
that decides what is fetched next. The store talks to no database. It names the next
action that is due, its caller submits it, and replies come back in any shape. -/
namespace Reldex
open List Nat

/-- The kind a driver reports; the splitter has a notion of its own. -/
inductive Driver.StatementKind where
  | query | dml | ddl | plSqlBlock | transactionControl | sessionControl | other
  deriving DecidableEq, Repr

structure ExecuteOutcome where
  result : Option ResultId
  columns : List ColumnMetadata
  statementKind : Driver.StatementKind
  committedImplicitly : Bool

/-- An implicit commit, or transaction control submitted as text. -/
def ExecuteOutcome.endsTransaction (outcome : ExecuteOutcome) : Bool :=
  outcome.committedImplicitly || outcome.statementKind == .transactionControl

def NonZeroUsize.new (n : Nat) : Option NonZeroUsize :=
  if bounds : 0 < n ∧ n ≤ usizeMax then some ⟨n,bounds⟩ else none

structure FetchTicket where
  result : ResultId
  sequence : Nat
  deriving DecidableEq, Repr

structure FetchRequest where
  ticket : FetchTicket
  maxRows : NonZeroUsize
  deriving DecidableEq

inductive StoreAction where
  | fetch (request : FetchRequest)
  | closeResult (result : ResultId)
  deriving DecidableEq

def StoreAction.isFetch : StoreAction → Bool
  | .fetch _ => true
  | .closeResult _ => false

structure SegmentReply where
  segment : ResultSegment
  exhausted : Bool

inductive LimitKind where
  | rows | bytes | rowCeiling
  deriving DecidableEq, Repr

inductive MoreRows where
  | yes | unknown
  deriving DecidableEq, Repr

inductive EndCause where
  | sessionEnded | transactionEnded | discarded
  deriving DecidableEq, Repr

inductive LobCell where
  | readable (handle : LobHandle)
  | unavailable (reason : LobUnavailable)
  deriving DecidableEq, Repr

inductive Fetched where
  | appended (rows : Nat)
  | failed | stale | notThisResult | outOfSequence
  deriving DecidableEq, Repr

inductive FetchMore where
  | step | unlimited
  deriving DecidableEq, Repr

structure InFlight where
  sequence : Nat
  rows : Nat
  bytes : Nat
  deriving DecidableEq, Repr

inductive Phase where
  | active
  | atLimit (limit : LimitKind) (more : MoreRows)
  | complete
  | failed (after : Nat) (error : DbError)
  | ended (cause : EndCause)
  deriving DecidableEq, Repr

namespace Phase

def isActive : Phase → Bool
  | .active => true
  | _ => false

def isAtLimit : Phase → Bool
  | .atLimit _ _ => true
  | _ => false

/-- Nothing raises the grid's own ceiling. -/
def isRaisable : Phase → Bool
  | .atLimit .rows _ | .atLimit .bytes _ => true
  | _ => false

theorem isRaisable_isAtLimit {phase : Phase} (raisable : phase.isRaisable = true) : phase.isAtLimit = true := by
  cases phase with
  | atLimit limit more => rfl
  | _ => cases raisable

@[simp] theorem isActive_iff (phase : Phase) : phase.isActive = true ↔ phase = .active := by
  cases phase <;> simp [isActive]

end Phase

structure Retained where
  segments : List ResultSegment
  starts : List Nat
  uniform : Bool
  retainedRows : Nat
  segmentBytes : Nat
  starts_eq : starts = Chunks.starts 0 (segments.map ResultSegment.rows)
  rows_eq : retainedRows = (segments.map ResultSegment.rows).sum
  bytes_eq : segmentBytes = (segments.map ResultSegment.accountedBytes).sum
  filled : ∀ segment ∈ segments, 0 < segment.rows
  regular : uniform = true → Chunks.Regular (segments.map ResultSegment.rows)

namespace Retained

def empty : Retained where
  segments := []
  starts := []
  uniform := true
  retainedRows := 0
  segmentBytes := 0
  starts_eq := rfl
  rows_eq := rfl
  bytes_eq := rfl
  filled := by simp
  regular := by simp [Chunks.Regular]

/-- The last segment is about to be one between the first and the last. If it is not
as long as the second, rows no longer map to segments by division. -/
def irregular (r : Retained) : Bool :=
  decide (3 ≤ r.segments.length) && r.segments[1]?.map ResultSegment.rows != r.segments.getLast?.map ResultSegment.rows

theorem regular_concat (r : Retained) (size : Nat) (uniform : (r.uniform && !r.irregular) = true) :
    Chunks.Regular (r.segments.map ResultSegment.rows ++ [size]) := by
  simp only [irregular,Bool.and_eq_true,Bool.not_eq_eq_eq_not,Bool.not_true,Bool.and_eq_false_iff,
    decide_eq_false_iff_not,bne_eq_false_iff_eq] at uniform
  refine (r.regular uniform.1).concat ?_ size
  intro long
  rw [length_map] at long
  rw [getLast?_map,getElem?_map]
  exact (uniform.2.resolve_left (not_not_intro long)).symm

def append (r : Retained) (segment : ResultSegment) (filled : 0 < segment.rows) : Retained where
  segments := r.segments ++ [segment]
  starts := r.starts ++ [r.retainedRows]
  uniform := r.uniform && !r.irregular
  retainedRows := r.retainedRows + segment.rows
  segmentBytes := r.segmentBytes + segment.accountedBytes
  starts_eq := by
    rw [map_append,map_singleton,Chunks.starts_concat,← r.starts_eq,← r.rows_eq,Nat.zero_add]
  rows_eq := by simp [r.rows_eq]
  bytes_eq := by simp [r.bytes_eq]
  filled := by simpa [or_imp,forall_and] using ⟨r.filled,filled⟩
  regular := by rw [map_append,map_singleton]; exact r.regular_concat segment.rows

def segmentIndex (r : Retained) (row : Nat) : Option Nat :=
  if r.retainedRows ≤ row then none
  else if r.segments.length = 0 then none
  else if r.uniform then do
    let first ← r.segments.head?
    if row < first.rows then some 0
    else
      let second ← r.segments[1]?
      some (min (1 + (row - first.rows) / second.rows) (r.segments.length - 1))
  else
    -- how many segments start at or before the row, less one
    let before := (r.starts.takeWhile (decide <| · ≤ row)).length
    if before = 0 then none else some (before - 1)

def cells (r : Retained) : List (ResultSegment × Nat) := Chunks.cells ResultSegment.rows r.segments

theorem cells_length (r : Retained) : r.cells.length = r.retainedRows := by
  rw [cells,Chunks.cells_length,r.rows_eq]

theorem segmentIndex_holds (r : Retained) (inside : row < r.retainedRows) :
    ∃ i, r.segmentIndex row = some i ∧ Chunks.Holds (r.segments.map ResultSegment.rows) row i := by
  have total := inside
  rw [r.rows_eq] at total
  have some_segment : r.segments.length ≠ 0 := by
    intro none
    simp [length_eq_zero_iff.mp none] at total
  rw [segmentIndex,if_neg (by omega),if_neg some_segment]
  cases uniform : r.uniform with
  | false =>
    obtain ⟨i,count,holds⟩ := Chunks.holds_search (zero_le row) (by simpa using total)
    refine ⟨i,?_,by simpa using holds⟩
    rw [← r.starts_eq] at count
    simp [count]
  | true =>
    have regular := r.regular uniform
    have filled := r.filled
    generalize r.segments = segments at *
    match segments with
    | [] => simp at some_segment
    | first :: rest =>
      by_cases early : row < first.rows
      · exact ⟨0,by simp [early],first.rows,by simp,by simp,by simpa using early⟩
      · match rest with
        | [] => simp at total; omega
        | second :: rest =>
          refine ⟨_,by simp [early]; rfl,?_⟩
          have holds := regular.holds_division (filled second (by simp)) (Nat.le_of_not_lt early) total
          simpa using holds

/-- What a store has retained after these segments arrived. -/
def ofSegments (segments : List { segment : ResultSegment // 0 < segment.rows }) : Retained :=
  segments.foldl (fun r segment => r.append segment.1 segment.2) empty

/-- `starts.partition_point(|start| *start <= row)`. -/
def partitionPoint (r : Retained) (row : Nat) : Nat := (r.starts.takeWhile (decide <| · ≤ row)).length

/-- Whichever way the lookup goes, it finds the segment that a search over the starts finds. -/
theorem lookup_is_partition_point (segments : List { segment : ResultSegment // 0 < segment.rows }) {row : Nat}
    (inside : row < (ofSegments segments).retainedRows) :
    ∃ index segment start, (ofSegments segments).segmentIndex row = some index ∧
      (ofSegments segments).partitionPoint row = index + 1 ∧
      (∀ later ∈ (ofSegments segments).starts.drop (index + 1), row < later) ∧
      (ofSegments segments).segments[index]? = some segment ∧ (ofSegments segments).starts[index]? = some start ∧
      start ≤ row ∧ row < start + segment.rows := by
  generalize ofSegments segments = r at inside ⊢
  obtain ⟨index,found,held⟩ := r.segmentIndex_holds inside
  obtain ⟨count,above⟩ := held.search 0
  obtain ⟨size,chunk,low,high⟩ := held
  rw [getElem?_map,Option.map_eq_some_iff] at chunk
  obtain ⟨segment,there,rfl⟩ := chunk
  have short : index < (r.segments.map ResultSegment.rows).length := by
    rw [length_map]
    exact (List.getElem?_eq_some_iff.mp there).1
  have start := Chunks.starts_getElem? 0 short
  rw [← r.starts_eq] at count above start
  rw [zero_add] at count above start
  exact ⟨index,segment,_,found,count,above,there,start,low,high⟩

/-- A longer last segment: the quotient for its last row is one too many. -/
theorem longer_last_segment :
    let sized (rows : Nat) (filled : 0 < rows) : { segment : ResultSegment // 0 < segment.rows } :=
      ⟨⟨0,rows,[],0⟩,filled⟩
    let segments := [sized 3 (by decide),sized 2 (by decide),sized 5 (by decide)]
    (ofSegments segments).uniform = true ∧ ∃ index segment start, (ofSegments segments).segmentIndex 9 = some index ∧
      (ofSegments segments).partitionPoint 9 = index + 1 ∧
      (∀ later ∈ (ofSegments segments).starts.drop (index + 1), 9 < later) ∧
      (ofSegments segments).segments[index]? = some segment ∧ (ofSegments segments).starts[index]? = some start ∧
      start ≤ 9 ∧ 9 < start + segment.rows :=
  ⟨by decide,lookup_is_partition_point _ (by decide)⟩

end Retained

structure Outstanding where
  nextSequence : Nat
  inFlight : List InFlight
  inFlightRows : Nat
  inFlightBytes : Nat
  firstSubmitted : Bool
  flight_eq : inFlightRows = (inFlight.map InFlight.rows).sum

namespace Outstanding

def empty : Outstanding := ⟨0,[],0,0,false,rfl⟩

def push (o : Outstanding) (entry : InFlight) : Outstanding where
  nextSequence := o.nextSequence + 1
  inFlight := o.inFlight ++ [entry]
  inFlightRows := o.inFlightRows + entry.rows
  inFlightBytes := saturatingAdd o.inFlightBytes entry.bytes
  firstSubmitted := true
  flight_eq := by simp [o.flight_eq]

theorem sum_eraseP (f : InFlight → Nat) : ∀ {entries : List InFlight}, entries.find? p = some entry →
      (entries.map f).sum = f entry + ((entries.eraseP p).map f).sum
  | first :: entries, found => by
    cases hit : p first with
    | true =>
      rw [find?_cons_of_pos hit] at found
      cases found
      rw [eraseP_cons_of_pos hit,map_cons,sum_cons]
    | false =>
      rw [find?_cons_of_neg (by simp [hit])] at found
      rw [eraseP_cons_of_neg (by simp [hit]),map_cons,sum_cons,sum_eraseP f found,map_cons,sum_cons]
      omega

def remove (o : Outstanding) (sequence : Nat) : Outstanding :=
  match found : o.inFlight.find? (·.sequence == sequence) with
  | none => o
  | some entry =>
    { o with
      inFlight := o.inFlight.eraseP (·.sequence == sequence)
      inFlightRows := o.inFlightRows - entry.rows
      inFlightBytes := o.inFlightBytes - entry.bytes
      flight_eq := by rw [o.flight_eq,sum_eraseP InFlight.rows found]; omega }

def popFront (o : Outstanding) : Outstanding :=
  match front : o.inFlight with
  | [] => o
  | entry :: rest =>
    { o with
      inFlight := rest
      inFlightRows := o.inFlightRows - entry.rows
      inFlightBytes := o.inFlightBytes - entry.bytes
      flight_eq := by rw [o.flight_eq,front,map_cons,sum_cons]; omega }

structure Shrinks (o next : Outstanding) : Prop where
  length : next.inFlight.length ≤ o.inFlight.length
  rows : next.inFlightRows ≤ o.inFlightRows
  estimate : next.inFlightBytes ≤ o.inFlightBytes
  bytes : o.inFlightBytes = (o.inFlight.map InFlight.bytes).sum →
    next.inFlightBytes = (next.inFlight.map InFlight.bytes).sum
  first : next.firstSubmitted = o.firstSubmitted

theorem Shrinks.refl (o : Outstanding) : Shrinks o o :=
  ⟨le_refl _,le_refl _,le_refl _,id,rfl⟩

theorem remove_shrinks (o : Outstanding) (sequence : Nat) : Shrinks o (o.remove sequence) := by
  unfold remove
  split
  · exact .refl o
  · rename_i entry found
    refine ⟨length_eraseP_le,sub_le ..,sub_le ..,?_,rfl⟩
    intro exact
    dsimp only
    rw [exact,sum_eraseP InFlight.bytes found]
    omega

theorem popFront_shrinks (o : Outstanding) : Shrinks o o.popFront := by
  unfold popFront
  split
  · exact .refl o
  · rename_i entry rest front
    refine ⟨by simp [front],sub_le ..,sub_le ..,?_,rfl⟩
    intro exact
    dsimp only
    rw [exact,front,map_cons,sum_cons]
    omega

theorem popFront_rows {o : Outstanding} (front : o.inFlight = entry :: rest) :
    o.popFront.inFlight = rest ∧ o.inFlightRows = entry.rows + o.popFront.inFlightRows := by
  have rows := o.flight_eq
  unfold popFront
  split
  · rename_i none
    rw [front] at none
    cases none
  · rename_i first others same
    rw [front] at same
    cases same
    rw [front,map_cons,sum_cons] at rows
    exact ⟨rfl,by dsimp only; omega⟩

end Outstanding

/-- How many places a vector that grew by `n` pushes holds. -/
structure VecGrowth where
  capacity : Nat → Nat
  unallocated : capacity 0 = 0

structure ResultStore extends Retained, Outstanding where
  result : ResultId
  columns : List ColumnMetadata
  policy : ResultPolicy
  caps : ResultCaps
  declaredWidth : Nat
  demand : Nat
  fetchAll : Bool
  stopped : Bool
  transactionEndsPending : Nat
  exhausted : Bool
  phase : Phase
  closeDue : Bool
  cursorClosed : Bool
  lobs : Option LobUnavailable
  declared : declaredWidth = declaredRowWidth columns

namespace ResultStore

def new (result : ResultId) (columns : List ColumnMetadata) (policy : ResultPolicy) : ResultStore where
  toRetained := .empty
  toOutstanding := .empty
  result := result
  columns := columns
  policy := policy
  caps := policy.caps
  declaredWidth := declaredRowWidth columns
  demand := 0
  fetchAll := false
  stopped := false
  transactionEndsPending := 0
  exhausted := false
  phase := .active
  closeDue := false
  cursorClosed := false
  lobs := none
  declared := rfl

/-- The row cap in force, bounded by the grid's ceiling. -/
def rowLimit (s : ResultStore) : Nat :=
  s.caps.maxRows.value.limit.elim gridRowCeiling (min · gridRowCeiling)

/-- The rows shown: every retained one but the lookahead past the row cap. -/
def rowCount (s : ResultStore) : Nat := min s.retainedRows s.rowLimit

def segmentForRow (s : ResultStore) (row : Nat) : Option (ResultSegment × Nat) :=
  if s.rowCount ≤ row then none
  else do
    let index ← s.segmentIndex row
    return (← s.segments[index]?,← s.starts[index]?)

/-- A large object is served only while its cursor lives. -/
def served (lobs : Option LobUnavailable) (cell : CellValue) : CellValue :=
  match cell, lobs with
  | .lob _, some reason => .lobUnavailable reason
  | cell, _ => cell

def value (s : ResultStore) (row column : Nat) : Option CellValue := do
  let (segment,first) ← s.segmentForRow row
  let cell ← segment.value (row - first) column
  return served s.lobs cell

def lob (s : ResultStore) (row column : Nat) : Option LobCell := do
  let (segment,first) ← s.segmentForRow row
  let data ← segment.columns[column]?
  match data.storage with
  | .lob _ =>
    if data.nulls.isNull (row - first) then none
    else match ← segment.value (row - first) column, s.lobs with
      | .lob _, some reason => some (.unavailable reason)
      | .lob handle, none => some (.readable handle)
      | _, _ => none
  | _ => none

def rowWidth (s : ResultStore) : Nat :=
  if s.retainedRows = 0 then s.declaredWidth
  else max 1 (min (s.segmentBytes / s.retainedRows) s.declaredWidth)

def rowsPerRoundTrip (s : ResultStore) : Nat :=
  max 1 (min (s.policy.roundTripBytes / s.rowWidth) s.policy.fetchRows)

/-- The reason a large object became unavailable is recorded once. -/
def loseLobs (s : ResultStore) (reason : LobUnavailable) : ResultStore :=
  { s with lobs := some (s.lobs.getD reason) }

section
variable (growth : VecGrowth)

/-- The bytes held, as the byte cap counts them: segments and the index over them. -/
def retainedBytes (s : ResultStore) : Nat :=
  s.segmentBytes + growth.capacity s.segments.length * 8 + growth.capacity s.starts.length * 8

/-- How many rows the view asks for: what it shows and one round trip ahead of it. -/
def target (s : ResultStore) : Nat :=
  if s.fetchAll then usizeMax else saturatingAdd s.demand s.rowsPerRoundTrip

/-- One row past the cap tells whether more exist. -/
def rowRoom (s : ResultStore) : Nat := saturatingAdd s.rowLimit 1 - (s.retainedRows + s.inFlightRows)

def byteRoom (s : ResultStore) : Nat :=
  s.caps.maxBytes.value.limit.elim usizeMax fun cap =>
    (cap - saturatingAdd (s.retainedBytes growth) s.inFlightBytes) / s.rowWidth

/-- The first request always asks for a row, however small the caps. -/
def nextRequestRows (s : ResultStore) : Option NonZeroUsize :=
  if s.firstSubmitted && decide (s.target ≤ s.retainedRows + s.inFlightRows) then none
  else
    (NonZeroUsize.new (min (min s.rowsPerRoundTrip s.rowRoom) (s.byteRoom growth))).or
      (if s.firstSubmitted then none else NonZeroUsize.new 1)

/-- The next action due. Before the first row there is one request at most. -/
def due (s : ResultStore) : Option StoreAction :=
  if s.closeDue then some (.closeResult s.result)
  else if !s.phase.isActive || s.stopped || s.exhausted || decide (0 < s.transactionEndsPending) ||
      decide (s.policy.fetchesInFlight.val ≤ s.inFlight.length) ||
      (s.retainedRows == 0 && !s.inFlight.isEmpty) then none
  else (s.nextRequestRows growth).map fun maxRows => .fetch ⟨⟨s.result,s.nextSequence⟩,maxRows⟩

def record (s : ResultStore) : StoreAction → ResultStore
  | .fetch request =>
    { s with
      toOutstanding := s.toOutstanding.push
        ⟨request.ticket.sequence,request.maxRows,saturatingMul request.maxRows s.rowWidth⟩ }
  | .closeResult _ => { s with closeDue := false, cursorClosed := true }.loseLobs .resultClosed

/-- Where an active store with nothing in flight comes to rest, if it does. -/
def restingPhase (s : ResultStore) : Option Phase :=
  if s.rowLimit < s.retainedRows then
    let fromCeiling := s.caps.maxRows.value.limit.all (decide <| gridRowCeiling < ·)
    some (.atLimit (if fromCeiling then .rowCeiling else .rows) .yes)
  else if s.exhausted then some .complete
  else if s.caps.maxBytes.value.limit.any
      (decide <| · < saturatingAdd (s.retainedBytes growth) s.rowWidth) then
    some (.atLimit .bytes .unknown)
  else none

def settle (s : ResultStore) : ResultStore :=
  if s.phase.isActive && s.inFlight.isEmpty then
    match s.restingPhase growth with
    | none => s
    | some phase =>
      { s with
        phase := phase
        closeDue := s.closeDue ||
          (phase.isAtLimit && s.caps.closeCursorAtLimit.value && !s.cursorClosed) }
  else s

def fetchMore (s : ResultStore) (more : FetchMore) : ResultStore × Bool :=
  if !s.phase.isRaisable || s.cursorClosed || s.closeDue then (s,false)
  else
    let caps := match more with
      | .step => s.caps.raisedBy s.policy.caps
      | .unlimited => s.caps.lifted
    ({ s with caps := caps, phase := .active, stopped := false }.settle growth,true)

def showId (result : ResultId) : String :=
  "ResultId#" ++ toString result.session ++ "." ++ toString result.result

/-- A reply that is not the next one fails a store that still fetches. -/
def refuse (s : ResultStore) (ticket : FetchTicket) : ResultStore :=
  let s := { s with toOutstanding := s.toOutstanding.remove ticket.sequence }
  if s.phase.isActive || s.phase.isAtLimit then
    { s with
      phase := .failed s.rowCount (.internal ("reldex-db-core: " ++ showId s.result ++ " received fetch #" ++
        toString ticket.sequence ++
        " out of sequence; the rows were not appended, and the result is incomplete")) }
  else s

/-- The worker closed the cursor after a failed fetch, and its large objects with it. -/
def failFetch (s : ResultStore) (error : DbError) : ResultStore :=
  let reason := if error.sessionState = .lost then .sessionEnded else .resultClosed
  { s.loseLobs reason with cursorClosed := true, phase := .failed s.rowCount error }

def failColumns (s : ResultStore) (segment : ResultSegment) : ResultStore :=
  { s with
    phase := .failed s.rowCount (.internal ("reldex-db-core: a segment of " ++ showId s.result ++ " has " ++
      toString segment.columns.length ++ " columns where the result has " ++ toString s.columns.length)) }

def take (s : ResultStore) (reply : SegmentReply) : ResultStore :=
  { s with
    exhausted := s.exhausted || reply.exhausted
    toRetained :=
      if filled : 0 < reply.segment.rows then s.toRetained.append reply.segment filled else s.toRetained }

def onFetched (s : ResultStore) (ticket : FetchTicket) (reply : Except DbError SegmentReply) :
    ResultStore × Fetched :=
  if ticket.result ≠ s.result then (s,.notThisResult)
  else if s.inFlight.head?.map InFlight.sequence ≠ some ticket.sequence then
    (s.refuse ticket,.outOfSequence)
  else
    let s := { s with toOutstanding := s.toOutstanding.popFront }
    if !s.phase.isActive then (s,.stale)
    else match reply with
      | .error error => (s.failFetch error,.failed)
      | .ok reply =>
        if 0 < reply.segment.rows ∧ reply.segment.columns.length ≠ s.columns.length then
          (s.failColumns reply.segment,.failed)
        else ((s.take reply).settle growth,.appended reply.segment.rows)

end

def discard (s : ResultStore) : ResultStore :=
  { s with phase := .ended .discarded, closeDue := false, cursorClosed := true }.loseLobs .resultClosed

/-- The worker released the cursor: nothing is left to close. A result whose cursor was
closed at its cap keeps saying which cap stopped it. -/
def endTransaction (s : ResultStore) : ResultStore :=
  let cursorWasOpen := !s.cursorClosed && !s.closeDue
  let phase := match s.phase with
    | .active => .ended .transactionEnded
    | .atLimit limit more => if cursorWasOpen then .ended .transactionEnded else .atLimit limit more
    | phase => phase
  { s with phase := phase, cursorClosed := true, closeDue := false }.loseLobs .transactionEnded

def transactionEndSubmitted (s : ResultStore) : ResultStore :=
  { s with transactionEndsPending := s.transactionEndsPending + 1 }

def transactionEndAnswered (s : ResultStore) (succeeded : Bool) : ResultStore :=
  let s := { s with transactionEndsPending := s.transactionEndsPending - 1 }
  if succeeded then s.endTransaction else s

def statementExecuted (s : ResultStore) (outcome : ExecuteOutcome) : ResultStore :=
  if outcome.endsTransaction then s.endTransaction else s

def sessionEnded (s : ResultStore) : ResultStore :=
  { s with
    cursorClosed := true
    closeDue := false
    phase := if s.phase.isActive || s.phase.isAtLimit then .ended .sessionEnded else s.phase }.loseLobs
      .sessionEnded

end ResultStore
end Reldex
